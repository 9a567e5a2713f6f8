import Exfer.Spec.Smt

/-!
# Key bits

`getBit` never fails below 256, a key is determined by its bits (`eq_of_agree`), and
the loops of the tree over bit ranges compute what their names say: `divergeFrom_spec`,
`matchesPrefix_eq`, and `foldHash_eq`, which identifies `foldHash` with the library's
`pathHash`.
-/

namespace Exfer.Proof

open Lib Impl Spec Impl.SparseMerkleTree

variable {i n d : Nat}

/-- The bit of a key at a position; false past the end of the key. -/
def keyBit (k : Hash256) (i : Nat) : Bool :=
  decide (getBit k i = some 1)

theorem getBit_eq_testBit (k : Hash256) (hi : i < 256) :
    getBit k i = some (if (k[i / 8]).toNat.testBit (7 - i % 8) then 1 else 0) := by
  have hs : (UInt8.ofNat (7 - i % 8)).toNat % 8 = 7 - i % 8 := by
    rw [UInt8.toNat_ofNat']
    omega
  have hk : k[i / 8]? = some k[i / 8] := by
    rw [getElem?_pos]
  simp only [getBit, hk, Option.map_some, Option.some.injEq]
  apply UInt8.toNat_inj.mp
  rw [UInt8.toNat_and, UInt8.toNat_shiftRight, hs, Nat.testBit, UInt8.toNat_one,
    Nat.land_comm 1 (_ >>> _), Nat.and_one_is_mod]
  rcases Nat.mod_two_eq_zero_or_one ((k[i / 8]).toNat >>> (7 - i % 8)) with h | h <;> simp [h]

theorem keyBit_eq_testBit (k : Hash256) (hi : i < 256) : keyBit k i = (k[i / 8]).toNat.testBit (7 - i % 8) := by
  rw [keyBit, getBit_eq_testBit k hi]
  split <;> simp_all

theorem getBit_eq (k : Hash256) (hi : i < 256) : getBit k i = some (if keyBit k i then 1 else 0) := by
  rw [keyBit_eq_testBit k hi, getBit_eq_testBit k hi]

/-- A key is determined by its 256 bits. -/
theorem eq_of_agree (h : Agree 256 (keyBit a) (keyBit b)) : a = b := by
  refine Vector.ext fun j hj => UInt8.toNat_inj.mp (Nat.eq_of_testBit_eq fun i => ?_)
  by_cases hi : i < 8
  · have hb := h (8 * j + (7 - i)) (by omega)
    rw [keyBit_eq_testBit _ (by omega), keyBit_eq_testBit _ (by omega)] at hb
    simpa only [show (8 * j + (7 - i)) / 8 = j by omega,
      show 7 - (8 * j + (7 - i)) % 8 = i by omega] using hb
  · have pow : 2 ^ 8 ≤ 2 ^ i := Nat.pow_le_pow_right (by decide) (by omega)
    rw [Nat.testBit_eq_false_of_lt (lt_of_lt_of_le (UInt8.toNat_lt _) pow),
      Nat.testBit_eq_false_of_lt (lt_of_lt_of_le (UInt8.toNat_lt _) pow)]

theorem keyBit_keyOfBits (p : Nat → Bool) (hi : i < 256) : keyBit (keyOfBits p) i = p i := by
  have hlt : (Nat.ofBits fun j : Fin 8 => p (8 * (i / 8) + (7 - j))) < 2 ^ 8 :=
    Nat.ofBits_lt_two_pow _
  rw [keyBit_eq_testBit _ hi]
  simp only [keyOfBits, Vector.getElem_ofFn, UInt8.toNat_ofNat']
  rw [Nat.mod_eq_of_lt hlt, Nat.testBit_ofBits_lt _ _ (by omega)]
  congr 1
  simp only
  omega

theorem keyOfBits_eq_iff : keyOfBits p = k ↔ Agree 256 p (keyBit k) := by
  constructor
  · rintro rfl i hi
    exact (keyBit_keyOfBits p hi).symm
  · intro h
    exact eq_of_agree fun i hi => (keyBit_keyOfBits p hi).trans (h i hi)

/-! ## Scanning a range of bits -/

private theorem ite_bit_ne {a b : Bool} : ((if a then 1 else 0 : UInt8) ≠ if b then 1 else 0) ↔ a ≠ b := by
  cases a <;> cases b <;> decide

/-- The scan over an extension's prefix stops at the first differing bit, or at the end. -/
theorem divergeFrom_spec (key pk : Hash256) (hd : d + n ≤ 256) :
    ∃ e, divergeFrom key pk n d = some e ∧ d ≤ e ∧ e ≤ d + n ∧
      (∀ i, d ≤ i → i < e → keyBit key i = keyBit pk i) ∧
      (e < d + n → keyBit key e ≠ keyBit pk e) := by
  induction n generalizing d with
  | zero => exact ⟨d, rfl, le_rfl, le_rfl, fun i h1 h2 => by omega, fun h => by omega⟩
  | succ n ih =>
    by_cases hb : keyBit key d = keyBit pk d
    · obtain ⟨e, he, h1, h2, h3, h4⟩ := ih (d := d + 1) (by omega)
      refine ⟨e, ?_, by omega, by omega, fun i hi hie => ?_, fun h => h4 (by omega)⟩
      · simp [divergeFrom, getBit_eq, show d < 256 by omega, hb, he]
      · rcases Nat.eq_or_lt_of_le hi with rfl | hi
        · exact hb
        · exact h3 i hi hie
    · refine ⟨d, ?_, le_rfl, by omega, fun i h1 h2 => by omega, fun _ => hb⟩
      simp [divergeFrom, getBit_eq, show d < 256 by omega, ite_bit_ne.mpr hb]

/-- `find_leaf`'s scan decides whether the keys agree on the range. -/
theorem matchesPrefix_eq (key pk : Hash256) (hd : d + n ≤ 256) : ∃ b, matchesPrefix key pk n d = some b ∧
      (b = true ↔ ∀ i, d ≤ i → i < d + n → keyBit key i = keyBit pk i) := by
  induction n generalizing d with
  | zero => exact ⟨true, rfl, by simp; omega⟩
  | succ n ih =>
    by_cases hb : keyBit key d = keyBit pk d
    · obtain ⟨b, hm, hb'⟩ := ih (d := d + 1) (by omega)
      refine ⟨b, by simp [matchesPrefix, getBit_eq, show d < 256 by omega, hb, hm], hb'.trans ?_⟩
      refine ⟨fun h i h1 h2 => ?_, fun h i h1 h2 => h i (by omega) (by omega)⟩
      rcases Nat.eq_or_lt_of_le h1 with rfl | h1
      · exact hb
      · exact h i h1 (by omega)
    · refine ⟨false, ?_, by simpa using ⟨d, le_rfl, by omega, hb⟩⟩
      simp [matchesPrefix, getBit_eq, show d < 256 by omega, ite_bit_ne.mpr hb]

/-! ## Folding past empty siblings -/

variable [Crypto]

theorem emptyHashes_eq (d : Nat) : emptyHashes d = emptyHash nodeHash Hash256.zero d := by
  induction d with
  | zero => rfl
  | succ d ih => rw [emptyHashes, emptyHash, ih, nodeHash]

/-- A path of `len + 1` nodes is a path of `len` nodes over its lowest node. -/
theorem pathHash_snoc (x : Hash256) (h : Nat) (p : Nat → Bool) (len d : Nat) :
    pathHash nodeHash Hash256.zero x h p (len + 1) d =
      pathHash nodeHash Hash256.zero (pathHash nodeHash Hash256.zero x h p 1 (d + len)) (h + 1)
        p len d := by
  induction len generalizing d with
  | zero => rfl
  | succ len ih =>
    conv_lhs => rw [pathHash]
    conv_rhs => rw [pathHash]
    rw [ih (d + 1), show d + 1 + len = d + (len + 1) by omega,
      show h + (len + 1) = h + 1 + len by omega]

theorem foldHashLoop_eq (x key : Hash256) (hd : d + n ≤ 256) : foldHashLoop key d n x =
      some (pathHash nodeHash Hash256.zero x (256 - (d + n)) (keyBit key) n d) := by
  induction n generalizing x with
  | zero => rfl
  | succ n ih =>
    have hempty : emptyHashesGet (smtDepth - (d + n) - 1) =
        some (emptyHash nodeHash Hash256.zero (256 - (d + (n + 1)))) := by
      rw [emptyHashesGet, if_pos (by omega), emptyHashes_eq]
      rfl
    have hlt : d + n + 1 ≤ smtDepth := hd
    rw [pathHash_snoc, show 256 - (d + (n + 1)) + 1 = 256 - (d + n) by omega, ← ih _ (by omega)]
    simp only [foldHashLoop, getBit_eq key (show d + n < 256 by omega), if_pos hlt, hempty,
      Option.bind_eq_bind, Option.bind_some, pathHash]
    cases keyBit key (d + n) <;> simp [nodeHash]

/-- `fold_hash` carries a digest from `c` up to `d` along the bits of `key`. -/
theorem foldHash_eq (x key : Hash256) (hdc : d ≤ c) (hc : c ≤ 256) : foldHash x key d c =
      some (pathHash nodeHash Hash256.zero x (256 - c) (keyBit key) (c - d) d) := by
  rw [foldHash, foldHashLoop_eq _ _ (by omega), show d + (c - d) = c by omega]

end Exfer.Proof
