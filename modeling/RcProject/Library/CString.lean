import RcProject.Library.SearchTree
import RcProject.Library.Result
import Mathlib.Data.Nat.Digits.Defs
import Mathlib.Data.List.TakeWhile

open rc_project.search_tree

namespace rc_project.c_string

/-- Bytes in memory, from some address on. -/
abbrev Bytes := List UInt8

/-- What is said of the bytes of a list is decided on the list, not on all 256 bytes. -/
instance (priority := 2000) decidableBAll {p : UInt8 → Prop} [DecidablePred p] (memory : Bytes) :
    Decidable (∀ c ∈ memory, p c) :=
  List.decidableBAll p memory

instance (priority := 2000) decidableBEx {p : UInt8 → Prop} [DecidablePred p] (memory : Bytes) :
    Decidable (∃ c ∈ memory, p c) :=
  List.decidableBEx p memory

/-- The bytes of a string literal, without its terminator. -/
def text (literal : String) : Bytes := literal.toList.map fun c => UInt8.ofNat c.toNat

/-- The string that starts at an address: the bytes before the first `NUL`. A
block without one ends the string. -/
def cstr (memory : Bytes) : Bytes := memory.takeWhile (· ≠ 0)

@[simp] theorem cstr_nil : cstr [] = [] := rfl

theorem cstr_cons (c : UInt8) (rest : Bytes) :
    cstr (c :: rest) = if c = 0 then [] else c :: cstr rest := by
  by_cases hc : c = 0 <;> simp [cstr, hc]

theorem not_mem_cstr (memory : Bytes) : 0 ∉ cstr memory := by
  intro hmem
  simpa using List.mem_takeWhile_imp hmem

theorem cstr_eq_self {string : Bytes} (hstring : 0 ∉ string) : cstr string = string :=
  List.takeWhile_eq_self_iff.mpr fun c hc => by
    simpa using ne_of_mem_of_not_mem hc hstring

@[simp] theorem cstr_cstr (memory : Bytes) : cstr (cstr memory) = cstr memory :=
  cstr_eq_self (not_mem_cstr memory)

theorem length_cstr_le (memory : Bytes) : (cstr memory).length ≤ memory.length :=
  (List.takeWhile_sublist _).length_le

theorem length_cstr_lt {memory : Bytes} (hnul : 0 ∈ memory) :
    (cstr memory).length < memory.length := by
  refine lt_of_le_of_ne (length_cstr_le memory) ?_
  intro hlength
  have hself : cstr memory = memory := (List.takeWhile_sublist _).eq_of_length hlength
  exact not_mem_cstr memory (hself.symm ▸ hnul)

/-- A string behind which its terminator stands is read back as it is. -/
theorem cstr_append_nul {string : Bytes} (hstring : 0 ∉ string) (rest : Bytes) :
    cstr (string ++ 0 :: rest) = string := by
  rw [cstr, List.takeWhile_append_of_pos]
  · simp
  · exact fun c hc => by simpa using ne_of_mem_of_not_mem hc hstring

/-- A terminator inside the first part ends the string there. -/
theorem cstr_append_of_mem {first : Bytes} (hnul : 0 ∈ first) (rest : Bytes) :
    cstr (first ++ rest) = cstr first := by
  induction first with
  | nil => simp at hnul
  | cons c first ih =>
    rw [List.cons_append, cstr_cons, cstr_cons]
    by_cases hc : c = 0
    · rw [if_pos hc, if_pos hc]
    · rw [if_neg hc, if_neg hc, ih]
      exact (List.mem_cons.mp hnul).resolve_left (Ne.symm hc)

theorem cstr_append_of_not_mem {first : Bytes} (hnul : 0 ∉ first) (rest : Bytes) :
    cstr (first ++ rest) = first ++ cstr rest := by
  rw [cstr, List.takeWhile_append_of_pos]
  · rfl
  · exact fun c hc => by simpa using ne_of_mem_of_not_mem hc hnul

/-- The first bytes of a block hold a string that ends inside of them. -/
theorem take_append_nul {string : Bytes} {n : Nat} (hfits : string.length < n) (rest : Bytes) :
    (string ++ 0 :: rest).take n = string ++ 0 :: rest.take (n - string.length - 1) := by
  obtain ⟨k, rfl⟩ : ∃ k, n = string.length + (k + 1) := ⟨n - string.length - 1, by omega⟩
  have hroom : string.length + (k + 1) - string.length - 1 = k := by omega
  rw [List.take_length_add_append, List.take_succ_cons, hroom]

/-- `strcmp`: the difference of the first bytes that differ, compared as
unsigned characters up to the first `NUL`. -/
def strcmp : Bytes → Bytes → Int
  | [], [] => 0
  | [], b :: _ => -b.toNat
  | a :: _, [] => a.toNat
  | a :: as, b :: bs =>
    if a = b then
      if a = 0 then 0 else strcmp as bs
    else a.toNat - b.toNat

private theorem toNat_eq_zero_iff {c : UInt8} : c.toNat = 0 ↔ c = 0 := by
  rw [← UInt8.toNat_inj]
  rfl

private theorem toNat_ne_of_ne {a b : UInt8} (hne : a ≠ b) : a.toNat ≠ b.toNat :=
  fun h => hne (UInt8.toNat_inj.mp h)

theorem strcmp_eq_zero_iff {a b : Bytes} : strcmp a b = 0 ↔ cstr a = cstr b := by
  induction a generalizing b with
  | nil =>
    cases b with
    | nil => simp [strcmp]
    | cons c bs =>
      rw [strcmp, cstr_cons, cstr_nil]
      by_cases hc : c = 0
      · simp [hc]
      · have := mt toNat_eq_zero_iff.mp hc
        simpa [hc] using this
  | cons c as ih =>
    cases b with
    | nil =>
      rw [strcmp, cstr_cons, cstr_nil]
      by_cases hc : c = 0
      · simp [hc]
      · have := mt toNat_eq_zero_iff.mp hc
        simpa [hc] using this
    | cons d bs =>
      rw [strcmp, cstr_cons, cstr_cons]
      by_cases hcd : c = d
      · subst hcd
        by_cases hc : c = 0
        · simp [hc]
        · simp [hc, ih]
      · rw [if_neg hcd]
        have hne := toNat_ne_of_ne hcd
        by_cases hc : c = 0 <;> by_cases hd : d = 0 <;> simp_all <;> omega

theorem strcmp_swap (a b : Bytes) : strcmp b a = -strcmp a b := by
  induction a generalizing b with
  | nil => cases b <;> simp [strcmp]
  | cons c as ih =>
    cases b with
    | nil => simp [strcmp]
    | cons d bs =>
      rw [strcmp, strcmp]
      by_cases hcd : c = d
      · subst hcd
        by_cases hc : c = 0
        · simp [hc]
        · simp [hc, ih]
      · rw [if_neg hcd, if_neg (Ne.symm hcd)]
        omega

theorem strcmp_trans {a b c : Bytes} (hab : strcmp a b ≤ 0) (hbc : strcmp b c ≤ 0) :
    strcmp a c ≤ 0 := by
  induction a generalizing b c with
  | nil =>
    cases c with
    | nil => simp [strcmp]
    | cons z cs => simp [strcmp]
  | cons x as ih =>
    cases b with
    | nil =>
      have hx : x = 0 := by
        rw [strcmp] at hab
        exact toNat_eq_zero_iff.mp (by omega)
      subst hx
      cases c with
      | nil => simp [strcmp]
      | cons z cs =>
        unfold strcmp
        split <;> simp
    | cons y bs =>
      cases c with
      | nil =>
        have hy : y = 0 := by
          rw [strcmp] at hbc
          exact toNat_eq_zero_iff.mp (by omega)
        subst hy
        simp only [strcmp] at hab ⊢
        by_cases hx : x = 0
        · simp [hx]
        · simpa [hx] using hab
      | cons z cs =>
        rw [strcmp] at hab hbc ⊢
        by_cases hxy : x = y
        · subst hxy
          by_cases hxz : x = z
          · subst hxz
            by_cases hx : x = 0
            · simp [hx]
            · simp only [if_true, if_neg hx] at hab hbc ⊢
              exact ih hab hbc
          · simpa [hxz] using hbc
        · have hne := toNat_ne_of_ne hxy
          rw [if_neg hxy] at hab
          by_cases hyz : y = z
          · subst hyz
            rw [if_neg hxy]
            exact hab
          · have hne' := toNat_ne_of_ne hyz
            rw [if_neg hyz] at hbc
            have hxz : x ≠ z := by
              rintro rfl
              omega
            rw [if_neg hxz]
            omega

/-- Only the strings matter to `strcmp`, not what lies behind them. -/
theorem strcmp_cstr (a b : Bytes) : strcmp (cstr a) (cstr b) = strcmp a b := by
  induction a generalizing b with
  | nil =>
    cases b with
    | nil => rfl
    | cons d bs =>
      rw [cstr_cons, cstr_nil]
      by_cases hd : d = 0
      · simp [hd, strcmp]
      · simp [hd, strcmp]
  | cons c as ih =>
    cases b with
    | nil =>
      rw [cstr_cons, cstr_nil]
      by_cases hc : c = 0
      · simp [hc, strcmp]
      · simp [hc, strcmp]
    | cons d bs =>
      rw [cstr_cons, cstr_cons, strcmp]
      by_cases hc : c = 0
      · by_cases hd : d = 0
        · simp [hc, hd, strcmp]
        · simp [hc, hd, strcmp, Ne.symm hd]
      · by_cases hd : d = 0
        · simp [hd, hc, strcmp]
        · rw [if_neg hc, if_neg hd, strcmp, ih]

/-- Comparing by a string of each element orders the elements. -/
theorem strcmp_lawful {α : Type} (memory : α → Bytes) :
    LawfulOn (fun a b => strcmp (memory a) (memory b)) Set.univ where
  neg_iff_pos a _ b _ := by
    have := strcmp_swap (memory a) (memory b)
    omega
  trans _ _ _ _ _ _ := strcmp_trans

/-- A `char` array inside a structure or on the stack. -/
@[ext] structure CharArray (size : Nat) where
  bytes : Bytes
  length_eq : bytes.length = size
  deriving DecidableEq, Repr

/-- An array that holds the first bytes of a longer block. -/
def CharArray.ofBytes (size : Nat) (memory : Bytes) : CharArray size where
  bytes := (memory ++ List.replicate size 0).take size
  length_eq := by simp

theorem CharArray.ofBytes_append {size : Nat} (array : CharArray size) (rest : Bytes) :
    CharArray.ofBytes size (array.bytes ++ rest) = array := by
  ext1
  simp [CharArray.ofBytes, ← array.length_eq]

theorem CharArray.bytes_ofBytes {size : Nat} {memory : Bytes} (hlength : size ≤ memory.length) :
    (CharArray.ofBytes size memory).bytes = memory.take size := by
  simp only [CharArray.ofBytes, List.take_append_of_le_length hlength]

/-- `strcpy` into an array: the string and its terminator replace the first
bytes, and one that does not fit runs over the end. -/
def strcpy {size : Nat} (dest : CharArray size) (source : Bytes) : Result (CharArray size) :=
  if h : (cstr source).length < size then
    return {
      bytes := cstr source ++ 0 :: dest.bytes.drop ((cstr source).length + 1)
      length_eq := by
        rw [List.length_append, List.length_cons, List.length_drop, dest.length_eq]
        omega }
  else
    throw .overflow

theorem strcpy_eq_ok_iff {size : Nat} {dest copied : CharArray size} {source : Bytes} :
    strcpy dest source = .ok copied ↔ (cstr source).length < size ∧
      copied.bytes = cstr source ++ 0 :: dest.bytes.drop ((cstr source).length + 1) := by
  unfold strcpy
  by_cases hfits : (cstr source).length < size
  · rw [dif_pos hfits, Result.pure_eq_ok, Except.ok.injEq, CharArray.ext_iff]
    exact ⟨fun heq => ⟨hfits, heq.symm⟩, fun h => h.2.symm⟩
  · rw [dif_neg hfits]
    simp [hfits]

/-- A copy succeeds when the string fits with its terminator. -/
theorem exists_strcpy {size : Nat} (dest : CharArray size) {source : Bytes}
    (hfits : (cstr source).length < size) : ∃ copied, strcpy dest source = .ok copied := by
  rw [strcpy, dif_pos hfits]
  exact ⟨_, rfl⟩

theorem nul_mem_of_strcpy {size : Nat} {dest copied : CharArray size} {source : Bytes}
    (hcopy : strcpy dest source = .ok copied) : 0 ∈ copied.bytes := by
  rw [(strcpy_eq_ok_iff.mp hcopy).2]
  simp

/-- The string that an array holds after a copy. -/
theorem cstr_of_strcpy {size : Nat} {dest copied : CharArray size} {source : Bytes}
    (hcopy : strcpy dest source = .ok copied) : cstr copied.bytes = cstr source := by
  rw [(strcpy_eq_ok_iff.mp hcopy).2]
  exact cstr_append_nul (not_mem_cstr source) _

/-- A string that ends inside a block is followed by its terminator. -/
theorem eq_cstr_append_nul {memory : Bytes} (hends : (cstr memory).length < memory.length) :
    memory = cstr memory ++ 0 :: memory.drop ((cstr memory).length + 1) := by
  induction memory with
  | nil => simp at hends
  | cons c rest ih =>
    rw [cstr_cons] at hends ⊢
    by_cases hc : c = 0
    · simp [hc]
    · rw [if_neg hc] at hends ⊢
      rw [List.cons_append, List.length_cons, List.drop_succ_cons, ← ih (by simpa using hends)]

/-- Copying the string that an array already holds changes nothing. -/
theorem strcpy_self {size : Nat} {dest : CharArray size} {source : Bytes}
    (hsame : cstr source = cstr dest.bytes) (hfits : (cstr source).length < size) :
    strcpy dest source = .ok dest := by
  rw [strcpy_eq_ok_iff]
  refine ⟨hfits, ?_⟩
  rw [hsame] at hfits ⊢
  exact eq_cstr_append_nul (by rwa [dest.length_eq])

/-- A string that an array of some size holds. -/
@[ext] structure CString (size : Nat) where
  bytes : Bytes
  nul_not_mem : 0 ∉ bytes
  length_lt : bytes.length < size
  deriving DecidableEq

/-- Reading the string in an array. Without a terminator it runs over the end. -/
def CharArray.string {size : Nat} (array : CharArray size) : Result (CString size) :=
  if h : 0 ∈ array.bytes then
    return {
      bytes := cstr array.bytes
      nul_not_mem := not_mem_cstr array.bytes
      length_lt := (length_cstr_lt h).trans_eq array.length_eq }
  else
    throw .out_of_bounds

theorem CharArray.bytes_of_string {size : Nat} {array : CharArray size} {string : CString size}
    (hstring : array.string = .ok string) : string.bytes = cstr array.bytes := by
  unfold CharArray.string at hstring
  split at hstring
  · cases hstring
    rfl
  · cases hstring

/-- The string in front of the first byte of a kind, as `string[strcspn(string, c)] = '\0'`
leaves it. -/
def CString.cut {size : Nat} (string : CString size) (c : UInt8) : CString size where
  bytes := string.bytes.takeWhile (· ≠ c)
  nul_not_mem hmem := string.nul_not_mem ((List.takeWhile_sublist _).subset hmem)
  length_lt := (List.takeWhile_sublist _).length_le.trans_lt string.length_lt

/-- Decimal digits, most significant first, as `%d` and `inet_ntop` print them. -/
def decimal (n : Nat) : Bytes :=
  if n = 0 then text "0" else (Nat.digits 10 n).reverse.map fun digit => UInt8.ofNat (48 + digit)

/-- A byte has at most three digits. -/
theorem decimal_of_byte (c : UInt8) :
    (decimal c.toNat).length ≤ 3 ∧ ∀ digit ∈ decimal c.toNat, 48 ≤ digit ∧ digit ≤ 57 := by
  have hall : ∀ n < 256, (decimal n).length ≤ 3 ∧ ∀ digit ∈ decimal n, 48 ≤ digit ∧ digit ≤ 57 := by
    decide +kernel
  exact hall c.toNat c.toNat_lt

/-- `%d` of a 32-bit integer. -/
def format_int (value : BitVec 32) : Bytes :=
  if value.toInt < 0 then text "-" ++ decimal value.toInt.natAbs else decimal value.toInt.natAbs

/-- `snprintf`: the text is cut so that it fits with its terminator, the bytes
behind the terminator keep what they held. -/
def snprintf (buffer : Bytes) (formatted : Bytes) : Bytes :=
  let written := formatted.take (buffer.length - 1)
  written ++ 0 :: buffer.drop (written.length + 1)

/-- Up to its terminator, what is printed does not show what the buffer held. -/
theorem take_snprintf_congr {buffer buffer' formatted : Bytes} {n : Nat}
    (hlength : buffer.length = buffer'.length) (hfits : n ≤ buffer.length)
    (hfull : n ≤ formatted.length + 1) :
    (snprintf buffer formatted).take n = (snprintf buffer' formatted).take n := by
  have hwritten : n ≤ (formatted.take (buffer.length - 1) ++ [0]).length := by
    rw [List.length_append, List.length_take, List.length_singleton]
    omega
  have htake (buffer : Bytes) : (formatted.take (buffer.length - 1) ++
      0 :: buffer.drop ((formatted.take (buffer.length - 1)).length + 1)) =
        formatted.take (buffer.length - 1) ++ [0] ++
          buffer.drop ((formatted.take (buffer.length - 1)).length + 1) := by
    rw [List.append_assoc, List.singleton_append]
  rw [snprintf, snprintf, htake, htake, ← hlength, List.take_append_of_le_length hwritten,
    List.take_append_of_le_length hwritten]

section Truncation

variable {buffer formatted : Bytes} {n : Nat}

theorem length_snprintf (hpos : 0 < buffer.length) (formatted : Bytes) :
    (snprintf buffer formatted).length = buffer.length := by
  simp only [snprintf, List.length_append, List.length_cons, List.length_drop, List.length_take]
  omega

/-- A shorter text is in the first bytes of the array with its terminator. -/
theorem take_snprintf_of_lt (hn : n ≤ buffer.length) (hfits : formatted.length < n) :
    ∃ behind, (snprintf buffer formatted).take n = formatted ++ 0 :: behind := by
  have hwhole : formatted.take (buffer.length - 1) = formatted :=
    List.take_of_length_le (by omega)
  obtain ⟨k, rfl⟩ : ∃ k, n = formatted.length + (k + 1) := ⟨n - formatted.length - 1, by omega⟩
  refine ⟨(buffer.drop (formatted.length + 1)).take k, ?_⟩
  rw [snprintf, hwhole, List.take_length_add_append, List.take_succ_cons]

/-- The string in the first bytes of the array does not show what the array held. -/
theorem cstr_take_snprintf (hn : n < buffer.length) :
    cstr ((snprintf buffer formatted).take n) = cstr (formatted.take n) := by
  obtain hfits | hlong := Nat.lt_or_ge formatted.length n
  · obtain ⟨behind, hbehind⟩ := take_snprintf_of_lt hn.le hfits
    rw [hbehind, List.take_of_length_le hfits.le]
    by_cases hnul : 0 ∈ formatted
    · exact cstr_append_of_mem hnul _
    · rw [cstr_append_nul hnul, cstr_eq_self hnul]
  · have hwritten : n ≤ (formatted.take (buffer.length - 1)).length := by
      rw [List.length_take]
      omega
    rw [snprintf, List.take_append_of_le_length hwritten, List.take_take,
      Nat.min_eq_left (by omega)]

end Truncation

end rc_project.c_string
