import Exfer.Lib.Bytes
import Exfer.Lib.Except

/-!
# Self-delimiting formats

A reader takes a byte string and returns a value and the number of bytes it took. `ReadsAs` says
that it reads a value off its encoding, whatever follows; `Canonical` that it accepts a value only in
the encoding a writer gives it, and `Faithful` the same of a writer that may fail. All pass from one
value to a run of values (`readMany`, `writeMany`). Where every encoding can be told from what follows
(`Delimits`), a run of encodings determines the values.
-/

namespace Exfer.Lib

variable {ε α : Type} {w n : Nat} {data rest bytes bytes' rest' : List UInt8}

/-- The first `n` bytes of `data` are `bytes`. -/
def Takes (data : List UInt8) (n : Nat) (bytes : List UInt8) : Prop :=
  n ≤ data.length ∧ data.take n = bytes

/-- `read` reads `a` off every string that starts with `bytes`, and takes just these bytes. -/
def ReadsAs (read : List UInt8 → Except ε (α × Nat)) (a : α) (bytes : List UInt8) : Prop :=
  ∀ rest, read (bytes ++ rest) = .ok (a, bytes.length)

/-- Whatever `read` accepts starts with what `write` writes for the value, and `read` takes just
this. -/
def Canonical (read : List UInt8 → Except ε (α × Nat)) (write : α → List UInt8) : Prop :=
  ∀ ⦃data a n⦄, read data = .ok (a, n) → Takes data n (write a)

/-- As `Canonical`, for a writer that may fail but does not on what was read. -/
def Faithful (read : List UInt8 → Except ε (α × Nat)) (write : α → Except ε (List UInt8)) : Prop :=
  ∀ ⦃data a n⦄, read data = .ok (a, n) → ∃ bytes, write a = .ok bytes ∧ Takes data n bytes

/-- Two encodings that start a string are of one value. -/
def Delimits (write : α → Except ε (List UInt8)) : Prop :=
  ∀ ⦃a a' bytes bytes' rest rest'⦄, write a = .ok bytes → write a' = .ok bytes' →
    bytes ++ rest = bytes' ++ rest' → a = a' ∧ rest = rest'

/-- The encodings of values, one after another. -/
def writeMany (write : α → Except ε (List UInt8)) : List α → Except ε (List UInt8)
  | [] => .ok []
  | a :: as => do return (← write a) ++ (← writeMany write as)

/-- `count` values, one after another, and the number of bytes they take. -/
def readMany (read : List UInt8 → Except ε (α × Nat)) :
    (count : Nat) → List UInt8 → Except ε (List α × Nat)
  | 0, _ => .ok ([], 0)
  | count + 1, data => do
    let (a, consumed) ← read data
    let (as, pos) ← readMany read count (data.drop consumed)
    return (a :: as, consumed + pos)

/-! ## Numbers of fixed width -/

theorem leBytes_leNat (bs : List UInt8) : leBytes bs.length (leNat bs) = bs := by
  induction bs with
  | nil => rfl
  | cons b bs ih =>
    have hb := b.toNat_lt
    have hdiv : (b.toNat + 256 * leNat bs) / 256 = leNat bs := by omega
    have hmod : UInt8.ofNat (b.toNat + 256 * leNat bs) = b := by
      apply UInt8.toNat_inj.mp
      rw [UInt8.toNat_ofNat']
      omega
    rw [leNat, List.length_cons, leBytes, hdiv, hmod, ih]

/-- The leading number of a string that starts with its bytes. -/
theorem leNat_take_append (h : n < 256 ^ w) (rest : List UInt8) : leNat ((leBytes w n ++ rest).take w) = n := by
  rw [List.take_left' (length_leBytes w n), leNat_leBytes h]

theorem drop_leBytes_append (w n : Nat) (rest : List UInt8) : (leBytes w n ++ rest).drop w = rest :=
  List.drop_left' (length_leBytes w n)

/-- The data after a field, where it is known from the field on. -/
theorem drop_add_of_drop {field : List UInt8} {m : Nat} (h : data.drop m = field ++ rest)
    (hn : field.length = n) : data.drop (m + n) = rest := by
  rw [← List.drop_drop, h, List.drop_left' hn]

theorem leNat_take_lt (h : w ≤ data.length) : leNat (data.take w) < 256 ^ w := by
  have := leNat_lt (data.take w)
  rwa [List.length_take_of_le h] at this

/-! ## Leading bytes -/

namespace Takes

variable {data bytes bytes' : List UInt8} {m n : Nat}

theorem length_eq (h : Takes data n bytes) : n = bytes.length := by
  rw [← h.2, List.length_take_of_le h.1]

/-- The whole string. -/
theorem eq (h : Takes data data.length bytes) : data = bytes := by
  rw [← h.2, List.take_length]

theorem nil : Takes data 0 [] :=
  ⟨Nat.zero_le _, rfl⟩

theorem raw (h : n ≤ data.length) : Takes data n (data.take n) :=
  ⟨h, rfl⟩

theorem number (h : n ≤ data.length) : Takes data n (leBytes n (leNat (data.take n))) := by
  have hbytes := leBytes_leNat (data.take n)
  rw [List.length_take_of_le h] at hbytes
  exact ⟨h, hbytes.symm⟩

theorem cons (tag : UInt8) (h : Takes data n bytes) : Takes (tag :: data) (1 + n) (tag :: bytes) := by
  rw [Nat.add_comm]
  exact ⟨Nat.succ_le_succ h.1, congrArg (tag :: ·) h.2⟩

theorem append (h : Takes data m bytes) (h' : Takes (data.drop m) n bytes') :
    Takes data (m + n) (bytes ++ bytes') := by
  have hlen := h'.1
  rw [List.length_drop] at hlen
  have hm := h.1
  exact ⟨by omega, by rw [List.take_add, h.2, h'.2]⟩

end Takes

/-- Encodings of one reader delimit themselves. -/
theorem ReadsAs.append_inj {read : List UInt8 → Except ε (α × Nat)} {a a' : α}
    (h : ReadsAs read a bytes) (h' : ReadsAs read a' bytes')
    (heq : bytes ++ rest = bytes' ++ rest') : a = a' ∧ rest = rest' := by
  have hread := h rest
  rw [heq, h' rest'] at hread
  obtain ⟨ha, hlen⟩ := Prod.mk.inj (Except.ok.inj hread)
  exact ⟨ha.symm, List.append_inj_right heq hlen.symm⟩

/-- What `read` accepts, it accepts as the same value whatever follows, and it takes no more than there
is. -/
def Stable (read : List UInt8 → Except ε (α × Nat)) : Prop :=
  ∀ ⦃data a n⦄, read data = .ok (a, n) → n ≤ data.length ∧ ∀ rest, read (data ++ rest) = .ok (a, n)

/-! ## Runs of values -/

variable {read : List UInt8 → Except ε (α × Nat)} {write : α → List UInt8} {count : Nat}

theorem readMany_reads {as : List α} (h : ∀ a ∈ as, ReadsAs read a (write a)) :
    ReadsAs (readMany read as.length) as (as.flatMap write) := by
  induction as with
  | nil => exact fun _ => rfl
  | cons a as ih =>
    intro rest
    have hhead := h a List.mem_cons_self (as.flatMap write ++ rest)
    have htail := ih (fun b hb => h b (List.mem_cons_of_mem _ hb)) rest
    rw [List.flatMap_cons, List.append_assoc, List.length_cons]
    refine bind_eq_ok.mpr ⟨_, hhead, bind_eq_ok.mpr ⟨(as, (as.flatMap write).length), ?_, ?_⟩⟩
    · rw [List.drop_left]
      exact htail
    · rw [List.length_append]
      rfl

theorem Canonical.many (h : Canonical read write) (count : Nat) :
    Canonical (readMany read count) (·.flatMap write) := by
  induction count with
  | zero =>
    intro data as n hread
    cases hread
    exact .nil
  | succ count ih =>
    intro data as n hread
    obtain ⟨⟨a, c⟩, hhead, hread⟩ := bind_eq_ok.mp hread
    obtain ⟨⟨as', pos⟩, htail, hread⟩ := bind_eq_ok.mp hread
    cases hread
    exact (h hhead).append (ih htail)

section Partial

variable {write : α → Except ε (List UInt8)}

theorem Stable.many (h : Stable read) (count : Nat) : Stable (readMany read count) := by
  induction count with
  | zero =>
    intro data as n hread
    cases hread
    exact ⟨Nat.zero_le _, fun _ => rfl⟩
  | succ count ih =>
    intro data as n hread
    obtain ⟨⟨a, c⟩, ha, hread⟩ := bind_eq_ok.mp hread
    obtain ⟨⟨as, m⟩, has, hread⟩ := bind_eq_ok.mp hread
    cases hread
    obtain ⟨hc, ha'⟩ := h ha
    obtain ⟨hm, has'⟩ := ih has
    rw [List.length_drop] at hm
    refine ⟨by omega, fun rest => bind_eq_ok.mpr ⟨(a, c), ha' rest, bind_eq_ok.mpr ⟨(as, m), ?_, rfl⟩⟩⟩
    rw [List.drop_append_of_le_length hc]
    exact has' rest

theorem writeMany_cons {a : α} {as : List α} (h : writeMany write (a :: as) = .ok bytes) :
    ∃ head tail, write a = .ok head ∧
      writeMany write as = .ok tail ∧ bytes = head ++ tail := by
  obtain ⟨head, hhead, h⟩ := bind_eq_ok.mp h
  obtain ⟨tail, htail, h⟩ := bind_eq_ok.mp h
  exact ⟨head, tail, hhead, htail, (Except.ok.inj h).symm⟩

theorem writeMany_reads {as : List α} (h : ∀ a ∈ as, ∀ bytes, write a = .ok bytes → ReadsAs read a bytes)
    (hwrite : writeMany write as = .ok bytes) : ReadsAs (readMany read as.length) as bytes := by
  induction as generalizing bytes with
  | nil =>
    cases hwrite
    exact fun _ => rfl
  | cons a as ih =>
    obtain ⟨head, tail, hhead, htail, rfl⟩ := writeMany_cons hwrite
    intro rest
    have hread := h a List.mem_cons_self head hhead (tail ++ rest)
    have hrest := ih (fun b hb => h b (List.mem_cons_of_mem _ hb)) htail rest
    rw [List.append_assoc, List.length_cons]
    refine bind_eq_ok.mpr ⟨_, hread, bind_eq_ok.mpr ⟨(as, tail.length), ?_, ?_⟩⟩
    · rw [List.drop_left]
      exact hrest
    · rw [List.length_append]
      rfl

theorem writeMany_length {size : Nat} {as : List α}
    (h : ∀ a ∈ as, ∀ bytes, write a = .ok bytes → size ≤ bytes.length)
    (hwrite : writeMany write as = .ok bytes) : as.length * size ≤ bytes.length := by
  induction as generalizing bytes with
  | nil => simp
  | cons a as ih =>
    obtain ⟨head, tail, hhead, htail, rfl⟩ := writeMany_cons hwrite
    have hfirst := h a List.mem_cons_self head hhead
    have hrest := ih (fun b hb => h b (List.mem_cons_of_mem _ hb)) htail
    rw [List.length_cons, List.length_append, Nat.succ_mul]
    omega

theorem Faithful.many (h : Faithful read write) (count : Nat) :
    Faithful (readMany read count) (writeMany write) := by
  induction count with
  | zero =>
    intro data as n hread
    cases hread
    exact ⟨[], rfl, .nil⟩
  | succ count ih =>
    intro data as n hread
    obtain ⟨⟨a, c⟩, hhead, hread⟩ := bind_eq_ok.mp hread
    obtain ⟨⟨as', pos⟩, htail, hread⟩ := bind_eq_ok.mp hread
    cases hread
    obtain ⟨head, hwrite, htakes⟩ := h hhead
    obtain ⟨tail, hwrites, htakes'⟩ := ih htail
    refine ⟨head ++ tail, ?_, htakes.append htakes'⟩
    rw [writeMany, hwrite, hwrites]
    rfl

/-- A counted run of encodings can be told from what follows. -/
theorem Delimits.many (h : Delimits write) {as as' : List α} (hlen : as.length = as'.length)
    (has : writeMany write as = .ok bytes) (has' : writeMany write as' = .ok bytes')
    (heq : bytes ++ rest = bytes' ++ rest') : as = as' ∧ rest = rest' := by
  induction as generalizing as' bytes bytes' with
  | nil =>
    obtain rfl := List.length_eq_zero_iff.mp hlen.symm
    cases has
    cases has'
    exact ⟨rfl, heq⟩
  | cons a as ih =>
    obtain ⟨a', as', rfl⟩ := List.exists_cons_of_length_eq_add_one hlen.symm
    obtain ⟨head, tail, hhead, htail, rfl⟩ := writeMany_cons has
    obtain ⟨head', tail', hhead', htail', rfl⟩ := writeMany_cons has'
    rw [List.append_assoc, List.append_assoc] at heq
    obtain ⟨rfl, heq⟩ := h hhead hhead' heq
    obtain ⟨rfl, hrest⟩ := ih (Nat.succ.inj hlen) htail htail' heq
    exact ⟨rfl, hrest⟩

/-- A run of encodings, none of them empty, determines the values and their number. -/
theorem Delimits.all (h : Delimits write) (hpos : ∀ a, write a ≠ .ok []) {as as' : List α}
    (has : writeMany write as = .ok bytes) (has' : writeMany write as' = .ok bytes) : as = as' := by
  have hempty : ∀ {a : α} {as : List α}, writeMany write (a :: as) ≠ .ok [] := by
    intro a as hnil
    obtain ⟨head, tail, hhead, -, heq⟩ := writeMany_cons hnil
    obtain ⟨rfl, -⟩ := List.append_eq_nil_iff.mp heq.symm
    exact hpos a hhead
  induction as generalizing as' bytes with
  | nil =>
    cases has
    cases as' with
    | nil => rfl
    | cons a' as' => exact absurd has' hempty
  | cons a as ih =>
    cases as' with
    | nil =>
      cases has'
      exact absurd has hempty
    | cons a' as' =>
      obtain ⟨head, tail, hhead, htail, rfl⟩ := writeMany_cons has
      obtain ⟨head', tail', hhead', htail', heq⟩ := writeMany_cons has'
      obtain ⟨rfl, rfl⟩ := h hhead hhead' heq
      rw [ih htail htail']

end Partial

/-- Each value of a run was read. -/
theorem exists_of_mem_readMany {as : List α} (h : readMany read count data = .ok (as, n)) :
    ∀ a ∈ as, ∃ data n, read data = .ok (a, n) := by
  induction count generalizing data as n with
  | zero =>
    cases h
    exact fun _ ha => nomatch ha
  | succ count ih =>
    obtain ⟨_, hhead, h⟩ := bind_eq_ok.mp h
    obtain ⟨_, htail, h⟩ := bind_eq_ok.mp h
    cases h
    intro a ha
    rcases List.mem_cons.mp ha with rfl | ha
    · exact ⟨_, _, hhead⟩
    · exact ih htail a ha

theorem length_readMany {as : List α} (h : readMany read count data = .ok (as, n)) : as.length = count := by
  induction count generalizing data as n with
  | zero =>
    cases h
    rfl
  | succ count ih =>
    obtain ⟨_, _, h⟩ := bind_eq_ok.mp h
    obtain ⟨_, htail, h⟩ := bind_eq_ok.mp h
    cases h
    exact congrArg Nat.succ (ih htail)

end Exfer.Lib
