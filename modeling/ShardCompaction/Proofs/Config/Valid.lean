import ShardCompaction.Config.Json
import ShardCompaction.Proofs.Checked

namespace ShardCompaction.Config

variable {c : Config} {text : String}

theorem validate_eq_ok_iff :
    c.validate = .ok () ↔ c.batchSize ≠ 0 ∧ (∃ zone, c.zone = .ok zone) ∧
      ∃ minimum, c.severity = .ok minimum := by
  rw [validate]
  split
  · rename_i hzero
    constructor
    · intro h
      cases h
    · rintro ⟨hbatch, -⟩
      exact absurd hzero hbatch
  · rename_i hbatch
    constructor
    · intro h
      obtain ⟨zone, hzone, h⟩ := Checked.bind_eq_ok_iff.mp h
      obtain ⟨minimum, hminimum, -⟩ := Checked.bind_eq_ok_iff.mp h
      exact ⟨hbatch, ⟨zone, hzone⟩, minimum, hminimum⟩
    · rintro ⟨-, ⟨zone, hzone⟩, minimum, hminimum⟩
      rw [hzone, hminimum]
      rfl

theorem ofText_of_read (h : (Json.parse text >>= ofJson?) = some c) :
    ofText text = c.validate >>= fun _ => .ok c := by
  rw [ofText, h]
  rfl

theorem ofText_eq_ok_iff :
    ofText text = .ok c ↔ (Json.parse text >>= ofJson?) = some c ∧ c.validate = .ok () := by
  constructor
  · intro h
    rw [ofText] at h
    split at h
    · cases h
    · rename_i found hread
      obtain ⟨_, hvalid, hfound⟩ := Checked.bind_eq_ok_iff.mp h
      obtain rfl := Except.ok.inj hfound
      exact ⟨hread, hvalid⟩
  · rintro ⟨hread, hvalid⟩
    rw [ofText_of_read hread, hvalid]
    rfl

theorem exists_of_ofText (h : ofText text = .ok c) :
    ∃ minimum compactor, c.severity = .ok minimum ∧ c.compactor = .ok compactor := by
  obtain ⟨-, hvalid⟩ := ofText_eq_ok_iff.mp h
  obtain ⟨-, ⟨zone, hzone⟩, minimum, hminimum⟩ := validate_eq_ok_iff.mp hvalid
  refine ⟨minimum, ⟨zone, c.maxBytes, c.maxRows⟩, hminimum, ?_⟩
  rw [compactor, hzone]
  rfl

end ShardCompaction.Config
