import VersionedFlags.Realm

/-!
# Names under a realm

The name of a scope determines its realm and its kind, and a marker determines
its realm, although a realm's name may hold the separator: the part behind the
last separator has no separator in it and is as long for every kind.
-/

namespace VersionedFlags

namespace Realm

theorem scope_inj {left right : Realm} {kind other : Kind} :
    left.scope kind = right.scope other ↔ left = right ∧ kind = other := by
  constructor
  · intro h
    have htext : left.name.toList ++ (":" ++ kind.label).toList =
        right.name.toList ++ (":" ++ other.label).toList := by
      simpa [scope, String.append_assoc] using congrArg String.toList h
    have hlength : (":" ++ kind.label).toList.length =
        (":" ++ other.label).toList.length := by
      cases kind <;> cases other <;> decide
    obtain ⟨hname, hlabel⟩ := List.append_inj' htext hlength
    refine ⟨?_, ?_⟩
    · cases left
      cases right
      simpa [String.ext_iff] using hname
    · cases kind <;> cases other <;>
        first | rfl | exact absurd hlabel (by decide)
  · rintro ⟨rfl, rfl⟩
    rfl

theorem marker_inj {left right : Realm} :
    left.marker = right.marker ↔ left = right := by
  constructor
  · intro h
    cases left
    cases right
    simpa [marker] using h
  · rintro rfl
    rfl

end Realm

end VersionedFlags
