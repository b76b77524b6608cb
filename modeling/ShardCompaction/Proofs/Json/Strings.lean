import ShardCompaction.Json.Reader
import ShardCompaction.Json.Writer
import ShardCompaction.Proofs.Text.Numerals

namespace ShardCompaction.Json

/-- A piece of a string literal that is read from the escaped form of a character and stands for
it. -/
structure Spells (piece : Piece) (c : Char) : Prop where
  read : ∀ rest, readPieces (escape c ++ rest) =
    (readPieces rest).map fun r => (piece :: r.1, r.2)
  join : ∀ pieces, joinPieces (piece :: pieces) = (joinPieces pieces).map (c :: ·)

theorem spells_short {c e : Char} (h : escape c = ['\\', e]) (hu : e ≠ 'u')
    (he : shortEscape? e = some c) : Spells (.char c) c := by
  refine ⟨fun rest => ?_, fun _ => rfl⟩
  have hread : readPieces ('\\' :: e :: rest) =
      shortEscape? e >>= fun c => readPieces rest >>= fun r => some (.char c :: r.1, r.2) := by
    rw [readPieces]
    simp [hu]
  rw [h, List.cons_append, List.cons_append, List.nil_append, hread, he]
  cases readPieces rest <;> rfl

/-- A code unit that is no surrogate is a character on its own. -/
theorem joinPieces_unit {code : Nat} (h : code < 0xd800) (pieces : List Piece) :
    joinPieces (.unit code :: pieces) = (joinPieces pieces).map (Char.ofNat code :: ·) := by
  have hhigh : ¬(0xd800 ≤ code ∧ code < 0xdc00) := by omega
  have hlow : ¬(0xdc00 ≤ code ∧ code < 0xe000) := by omega
  have hsurrogate : ¬(0xd800 ≤ code ∧ code < 0xe000) := by omega
  cases pieces with
  | nil => simp [joinPieces, hsurrogate]
  | cons piece pieces =>
    cases piece with
    | char c => simp [joinPieces, hsurrogate]
    | unit low => rw [joinPieces, if_neg hhigh, if_neg hlow]

theorem spells_unit {c : Char} (h : escape c = '\\' :: 'u' :: Hex.ofNat 4 c.toNat)
    (hlow : c.toNat < 32) : Spells (.unit c.toNat) c := by
  constructor
  · intro rest
    obtain ⟨x, y, z, w, hdigits⟩ : ∃ x y z w, Hex.ofNat 4 c.toNat = [x, y, z, w] :=
      ⟨_, _, _, _, rfl⟩
    have hvalue : Hex.toNat? [x, y, z, w] = some c.toNat := by
      rw [← hdigits, Hex.toNat?_ofNat, Nat.mod_eq_of_lt (by omega)]
    rw [h, hdigits]
    simp only [List.cons_append, List.nil_append]
    rw [readPieces, hvalue]
    cases readPieces rest <;> rfl
  · intro pieces
    rw [joinPieces_unit (by omega), Char.ofNat_toNat]

theorem spells_plain {c : Char} (h : escape c = [c]) (hquote : c ≠ '"') (hback : c ≠ '\\')
    (hlow : 32 ≤ c.toNat) : Spells (.char c) c := by
  refine ⟨fun rest => ?_, fun _ => rfl⟩
  have hplain : ¬(c = '\\' ∨ c.toNat < 32) := by
    rw [not_or]
    exact ⟨hback, by omega⟩
  have hread : readPieces (c :: rest) =
      readPieces rest >>= fun r => some (.char c :: r.1, r.2) := by
    rw [readPieces]
    · rw [if_neg hplain]
    all_goals simp [hquote, hback]
  rw [h, List.cons_append, List.nil_append, hread]
  cases readPieces rest <;> rfl

theorem exists_spells (c : Char) : ∃ piece, Spells piece c := by
  by_cases hshort : c = '"' ∨ c = '\\' ∨ c = Char.ofNat 8 ∨ c = '\t' ∨ c = '\n' ∨
      c = Char.ofNat 12 ∨ c = '\r'
  · rcases hshort with rfl | rfl | rfl | rfl | rfl | rfl | rfl <;>
      exact ⟨_, spells_short rfl (by decide) rfl⟩
  · simp only [not_or] at hshort
    obtain ⟨hquote, hback, h8, htab, hline, h12, hreturn⟩ := hshort
    have hcode : ∀ n, c ≠ Char.ofNat n → c.toNat ≠ n := by
      intro n hne he
      rw [← he, Char.ofNat_toNat] at hne
      exact hne rfl
    have hescape : escape c =
        if c.toNat < 32 then '\\' :: 'u' :: Hex.ofNat 4 c.toNat else [c] := by
      rw [escape, if_neg hquote, if_neg hback, if_neg (hcode 8 h8), if_neg htab, if_neg hline,
        if_neg (hcode 12 h12), if_neg hreturn]
    by_cases hlow : c.toNat < 32
    · rw [if_pos hlow] at hescape
      exact ⟨_, spells_unit hescape hlow⟩
    · rw [if_neg hlow] at hescape
      exact ⟨_, spells_plain hescape hquote hback (by omega)⟩

theorem readPieces_escape (cs rest : List Char) :
    ∃ pieces, readPieces (cs.flatMap escape ++ '"' :: rest) = some (pieces, rest) ∧
      joinPieces pieces = some cs := by
  induction cs with
  | nil => exact ⟨[], by simp [readPieces], rfl⟩
  | cons c cs ih =>
    obtain ⟨pieces, hread, hjoin⟩ := ih
    obtain ⟨piece, hspells⟩ := exists_spells c
    refine ⟨piece :: pieces, ?_, ?_⟩
    · rw [List.flatMap_cons, List.append_assoc, hspells.read, hread]
      rfl
    · rw [hspells.join, hjoin]
      rfl

/-- A literal is a quote and what is read up to the closing one, also if it names no text. -/
theorem exists_stringChars (s : Option String) :
    ∃ body, stringChars s = '"' :: body ∧ ∀ rest, readString (body ++ rest) = some (s, rest) := by
  cases s with
  | none =>
    refine ⟨['\\', 'u', 'd', '8', '0', '0', '"'], rfl, fun rest => ?_⟩
    have hcode : Hex.toNat? ['d', '8', '0', '0'] = some 0xd800 := by decide
    simp [readString, readPieces, hcode, joinPieces]
  | some s =>
    refine ⟨s.toList.flatMap escape ++ ['"'], by simp [stringChars, quoted], fun rest => ?_⟩
    obtain ⟨pieces, hread, hjoin⟩ := readPieces_escape s.toList rest
    rw [List.append_assoc, List.cons_append, List.nil_append, readString, hread]
    simp [hjoin]

end ShardCompaction.Json
