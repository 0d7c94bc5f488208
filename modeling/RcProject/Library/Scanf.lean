import Mathlib.Data.Nat.Digits.Lemmas
import RcProject.Library.CString

open rc_project.c_string

namespace rc_project.scanf

/-- `isspace` in the C locale. -/
def isspace (c : UInt8) : Bool := c = 32 || (9 ≤ c && c ≤ 13)

def isdigit (c : UInt8) : Bool := 48 ≤ c && c ≤ 57

/-- The directives of a `scanf` format. A conversion to a string names the size
of the array that it stores into. -/
inductive Directive
  /-- White space in the format: any amount of white space, also none. -/
  | space
  | literal (c : UInt8)
  /-- `%s` -/
  | word (size : Nat)
  /-- `%[^\n]` -/
  | line (size : Nat)
  /-- `%d` -/
  | int
  deriving DecidableEq, Repr

/-- What a conversion stores. -/
inductive Value
  | string (bytes : Bytes)
  | int (value : BitVec 32)
  deriving DecidableEq, Repr

/-- The digits as a number. -/
def digitsValue (digits : Bytes) : Nat :=
  digits.foldl (fun value digit => 10 * value + (digit.toNat - 48)) 0

/-- `%d` behind the white space: an optional sign and at least one digit. The
number is saturated to 64 bits, as `strtol` does, and stored in 32. -/
def scan_int (input : Bytes) : Option (BitVec 32 × Bytes) :=
  let negative := input.head? = some 45
  let unsigned := if negative ∨ input.head? = some 43 then input.tail else input
  let digits := unsigned.takeWhile isdigit
  if digits = [] then none
  else
    let value : Int := digitsValue digits
    let long := if negative then max (-2 ^ 63) (-value) else min (2 ^ 63 - 1) value
    some (BitVec.ofInt 32 long, unsigned.dropWhile isdigit)

/-- The word that `%s` reads, without the white space before it. -/
def nextWord (input : Bytes) : Bytes := (input.dropWhile isspace).takeWhile fun c => !isspace c

/-- The input behind that word. -/
def afterWord (input : Bytes) : Bytes := (input.dropWhile isspace).dropWhile fun c => !isspace c

/-- Stores a scanned string in an array of a given size. -/
def store (size : Nat) (scanned : Bytes) : Result Value :=
  if scanned.length < size then return .string scanned else throw .overflow

/-- `sscanf` on a string: the values that are stored, up to the first directive
that does not match. Their number is what the function returns. -/
def sscanf : Bytes → List Directive → Result (List Value)
  | _, [] => return []
  | input, .space :: format => sscanf (input.dropWhile isspace) format
  | input, .literal c :: format => if input.head? = some c then sscanf input.tail format else return []
  | input, .word size :: format =>
    if nextWord input = [] then return []
    else do
      let value ← store size (nextWord input)
      let values ← sscanf (afterWord input) format
      return value :: values
  | input, .line size :: format =>
    if input.takeWhile (· ≠ 10) = [] then return []
    else do
      let value ← store size (input.takeWhile (· ≠ 10))
      let values ← sscanf (input.dropWhile (· ≠ 10)) format
      return value :: values
  | input, .int :: format =>
    match scan_int (input.dropWhile isspace) with
    | none => return []
    | some (value, rest) => do
      let values ← sscanf rest format
      return .int value :: values

section Stdin

/-- What a conversion of `scanf` leaves of an array: the characters and a terminator
replace the first bytes. -/
def store_string {size : Nat} (dest : CharArray size) (scanned : Bytes) : Result (CharArray size) :=
  if h : scanned.length < size then
    return {
      bytes := scanned ++ 0 :: dest.bytes.drop (scanned.length + 1)
      length_eq := by
        rw [List.length_append, List.length_cons, List.length_drop, dest.length_eq]
        omega }
  else
    throw .overflow

/-- `scanf("%s", dest)`, with the input that is left. -/
def scanf_word {size : Nat} (dest : CharArray size) (stdin : Bytes) :
    Result (CharArray size × Bytes) := do
  if nextWord stdin = [] then
    return (dest, afterWord stdin)
  else
    let dest ← store_string dest (nextWord stdin)
    return (dest, afterWord stdin)

/-- `scanf("%[^\n]s", dest)`. The letter behind the conversion matches nothing, and an
empty line stores nothing. -/
def scanf_line {size : Nat} (dest : CharArray size) (stdin : Bytes) :
    Result (CharArray size × Bytes) := do
  if stdin.takeWhile (· ≠ 10) = [] then
    return (dest, stdin)
  else
    let dest ← store_string dest (stdin.takeWhile (· ≠ 10))
    return (dest, stdin.dropWhile (· ≠ 10))

/-- `while(fgetc(stdin) != '\n')`. Without a line end in the input the loop waits. -/
def skip_line (stdin : Bytes) : Option Bytes :=
  if 10 ∈ stdin then some (stdin.dropWhile (· ≠ 10)).tail else none

end Stdin

section Decimal

private theorem foldr_digits {digits : List Nat} (hdigits : ∀ digit ∈ digits, digit < 10) :
    digits.foldr (fun digit value => 10 * value + ((UInt8.ofNat (48 + digit)).toNat - 48)) 0 =
      Nat.ofDigits 10 digits := by
  induction digits with
  | nil => rfl
  | cons digit digits ih =>
    have hdigit : digit < 10 := hdigits digit List.mem_cons_self
    have hbyte : (UInt8.ofNat (48 + digit)).toNat = 48 + digit := by
      rw [UInt8.toNat_ofNat']
      omega
    rw [List.foldr_cons, ih fun d hd => hdigits d (List.mem_cons_of_mem _ hd), hbyte,
      Nat.ofDigits_cons, Nat.add_sub_cancel_left]
    omega

/-- The decimal digits of a number are read back as it. -/
theorem digitsValue_decimal (n : Nat) : digitsValue (decimal n) = n := by
  by_cases hn : n = 0
  · subst hn
    decide
  · rw [digitsValue, decimal, if_neg hn, List.foldl_map, List.foldl_reverse,
      foldr_digits fun digit hdigit => Nat.digits_lt_base (by decide) hdigit, Nat.ofDigits_digits]

theorem decimal_injective : Function.Injective decimal := by
  intro a b hab
  rw [← digitsValue_decimal a, hab, digitsValue_decimal]

theorem isdigit_of_mem_decimal {n : Nat} {c : UInt8} (hc : c ∈ decimal n) : isdigit c = true := by
  unfold decimal at hc
  split at hc
  · revert c
    decide
  · obtain ⟨digit, hdigit, rfl⟩ := List.mem_map.mp hc
    have hlt : digit < 10 := Nat.digits_lt_base (by decide) (List.mem_reverse.mp hdigit)
    have hall : ∀ digit < 10, isdigit (UInt8.ofNat (48 + digit)) = true := by decide
    exact hall digit hlt

theorem isspace_of_isdigit {c : UInt8} (hc : isdigit c = true) : isspace c = false := by
  simp only [isdigit, Bool.and_eq_true, decide_eq_true_eq, UInt8.le_iff_toNat_le] at hc
  simp only [isspace, Bool.or_eq_false_iff, Bool.and_eq_false_iff, decide_eq_false_iff_not,
    UInt8.le_iff_toNat_le, ← UInt8.toNat_inj]
  have hdigit : 48 ≤ c.toNat := hc.1
  constructor
  · change ¬ c.toNat = 32
    omega
  · right
    change ¬ c.toNat ≤ 13
    omega

theorem decimal_ne_nil (n : Nat) : decimal n ≠ [] := by
  unfold decimal
  split
  · decide
  · rename_i hn
    simpa using Nat.digits_ne_nil_iff_ne_zero.mpr hn

theorem nul_not_mem_decimal (n : Nat) : 0 ∉ decimal n :=
  fun hmem => absurd (isdigit_of_mem_decimal hmem) (by decide)

theorem length_decimal_le {n k : Nat} (hn : n < 10 ^ (k + 1)) : (decimal n).length ≤ k + 1 := by
  unfold decimal
  split
  · have hzero : (text "0").length = 1 := by decide
    omega
  · rw [List.length_map, List.length_reverse]
    exact (Nat.digits_length_le_iff (by decide) n).mpr hn

/-- A number in front of something else is read back by `%d`. -/
theorem scan_int_decimal {n : Nat} (hn : n < 2 ^ 31) {rest : Bytes}
    (hrest : ∀ c ∈ rest.head?, isdigit c = false) :
    scan_int (decimal n ++ rest) = some (BitVec.ofNat 32 n, rest) := by
  have hdigits : (decimal n ++ rest).takeWhile isdigit = decimal n := by
    rw [List.takeWhile_append_of_pos fun c hc => isdigit_of_mem_decimal hc]
    cases rest with
    | nil => simp
    | cons c rest =>
      have hc : isdigit c = false := hrest c rfl
      simp [hc]
  have hleft : (decimal n ++ rest).dropWhile isdigit = rest := by
    rw [List.dropWhile_append_of_pos fun c hc => isdigit_of_mem_decimal hc]
    cases rest with
    | nil => rfl
    | cons c rest =>
      have hc : isdigit c = false := hrest c rfl
      simp [hc]
  have hsign : (decimal n ++ rest).head? ≠ some 45 ∧ (decimal n ++ rest).head? ≠ some 43 := by
    obtain ⟨d, ds, hdecimal⟩ := List.exists_cons_of_ne_nil (decimal_ne_nil n)
    have hd : isdigit d = true := by
      apply isdigit_of_mem_decimal
      rw [hdecimal]
      exact List.mem_cons_self
    rw [hdecimal, List.cons_append, List.head?_cons]
    constructor
    · rintro ⟨⟩
      exact absurd hd (by decide)
    · rintro ⟨⟩
      exact absurd hd (by decide)
  have hvalue : min (2 ^ 63 - 1) (n : Int) = n := by omega
  simp only [scan_int, hsign.1, hsign.2, or_self, if_false, hdigits, hleft, decimal_ne_nil,
    digitsValue_decimal, hvalue, BitVec.ofInt_natCast]

/-- A conversion to a number at the end of a format. -/
theorem sscanf_int_decimal {n : Nat} (hn : n < 2 ^ 31) {rest : Bytes}
    (hrest : ∀ c ∈ rest.head?, isdigit c = false) :
    sscanf (decimal n ++ rest) [.int] = .ok [.int (BitVec.ofNat 32 n)] := by
  have hspace : (decimal n ++ rest).dropWhile isspace = decimal n ++ rest := by
    obtain ⟨d, ds, hdecimal⟩ := List.exists_cons_of_ne_nil (decimal_ne_nil n)
    have hd : isdigit d = true := by
      apply isdigit_of_mem_decimal
      rw [hdecimal]
      exact List.mem_cons_self
    simp [hdecimal, isspace_of_isdigit hd]
  simp only [sscanf, hspace, scan_int_decimal hn hrest]
  rfl

end Decimal

theorem store_eq_ok_iff {size : Nat} {scanned : Bytes} {value : Value} :
    store size scanned = .ok value ↔ scanned.length < size ∧ value = .string scanned := by
  unfold store
  by_cases hfits : scanned.length < size
  · simp [hfits, eq_comm]
  · simp [hfits]

/-- A conversion to a word that succeeds: the word is there and fits, and the format
goes on behind it. -/
theorem sscanf_word_eq_ok_iff {input : Bytes} {size : Nat} {format : List Directive}
    {value : Value} {values : List Value} :
    sscanf input (.word size :: format) = .ok (value :: values) ↔
      nextWord input ≠ [] ∧ (nextWord input).length < size ∧ value = .string (nextWord input) ∧
        sscanf (afterWord input) format = .ok values := by
  rw [sscanf]
  by_cases hword : nextWord input = []
  · simp [hword]
  · rw [if_neg hword]
    simp only [Result.bind_eq_ok_iff, store_eq_ok_iff, Result.pure_eq_ok, Except.ok.injEq,
      List.cons.injEq]
    constructor
    · rintro ⟨stored, ⟨hfits, rfl⟩, rest, hscan, rfl, rfl⟩
      exact ⟨hword, hfits, rfl, hscan⟩
    · rintro ⟨-, hfits, rfl, hscan⟩
      exact ⟨_, ⟨hfits, rfl⟩, values, hscan, rfl, rfl⟩

@[simp] theorem sscanf_space (input : Bytes) (format : List Directive) :
    sscanf input (.space :: format) = sscanf (input.dropWhile isspace) format := by
  rw [sscanf]

/-- A word that is stored first is the next word of the input, and fits its array. -/
theorem word_of_sscanf {input word : Bytes} {size : Nat} {format : List Directive}
    {values : List Value} (hscan : sscanf input (.word size :: format) = .ok (.string word :: values)) :
    word = nextWord input ∧ word.length < size := by
  obtain ⟨-, hfits, hword, -⟩ := sscanf_word_eq_ok_iff.mp hscan
  cases hword
  exact ⟨rfl, hfits⟩

section Words

variable {word rest input : Bytes}

/-- White space, or the end of the input. -/
def Breaks (rest : Bytes) : Prop := ∀ c ∈ rest.head?, isspace c = true

theorem breaks_nil : Breaks [] := by simp [Breaks]

theorem breaks_cons {c : UInt8} (hc : isspace c = true) (rest : Bytes) : Breaks (c :: rest) := by
  simpa [Breaks] using hc

theorem dropWhile_dropWhile (p : UInt8 → Bool) (input : Bytes) :
    (input.dropWhile p).dropWhile p = input.dropWhile p := by
  induction input with
  | nil => rfl
  | cons c rest ih =>
    rw [List.dropWhile_cons]
    cases hc : p c with
    | true => simpa using ih
    | false => simp [hc]

@[simp] theorem nextWord_dropWhile (input : Bytes) :
    nextWord (input.dropWhile isspace) = nextWord input := by
  rw [nextWord, nextWord, dropWhile_dropWhile]

@[simp] theorem afterWord_dropWhile (input : Bytes) :
    afterWord (input.dropWhile isspace) = afterWord input := by
  rw [afterWord, afterWord, dropWhile_dropWhile]

theorem dropWhile_isspace_append {before : Bytes} (hbefore : ∀ c ∈ before, isspace c = true)
    (rest : Bytes) : (before ++ rest).dropWhile isspace = rest.dropWhile isspace :=
  List.dropWhile_append_of_pos hbefore

theorem dropWhile_isspace_word (hne : word ≠ []) (hword : ∀ c ∈ word, isspace c = false)
    (rest : Bytes) : (word ++ rest).dropWhile isspace = word ++ rest := by
  cases word with
  | nil => exact absurd rfl hne
  | cons c word =>
    have hc : isspace c = false := hword c List.mem_cons_self
    simp [hc]

private theorem takeWhile_breaks (hrest : Breaks rest) :
    rest.takeWhile (fun c => !isspace c) = [] := by
  cases rest with
  | nil => rfl
  | cons c rest =>
    have hc : isspace c = true := hrest c rfl
    simp [hc]

private theorem dropWhile_breaks (hrest : Breaks rest) :
    rest.dropWhile (fun c => !isspace c) = rest := by
  cases rest with
  | nil => rfl
  | cons c rest =>
    have hc : isspace c = true := hrest c rfl
    simp [hc]

/-- A word in front of white space is read back as it is. -/
theorem nextWord_append (hne : word ≠ []) (hword : ∀ c ∈ word, isspace c = false)
    (hrest : Breaks rest) : nextWord (word ++ rest) = word := by
  rw [nextWord, dropWhile_isspace_word hne hword,
    List.takeWhile_append_of_pos fun c hc => by simp [hword c hc], takeWhile_breaks hrest,
    List.append_nil]

theorem afterWord_append (hne : word ≠ []) (hword : ∀ c ∈ word, isspace c = false)
    (hrest : Breaks rest) : afterWord (word ++ rest) = rest := by
  rw [afterWord, dropWhile_isspace_word hne hword,
    List.dropWhile_append_of_pos fun c hc => by simp [hword c hc], dropWhile_breaks hrest]

/-- The conversions skip white space themselves. -/
theorem sscanf_word_dropWhile (input : Bytes) (size : Nat) (format : List Directive) :
    sscanf (input.dropWhile isspace) (.word size :: format) = sscanf input (.word size :: format) := by
  rw [sscanf, sscanf, nextWord_dropWhile, afterWord_dropWhile]

theorem sscanf_int_dropWhile (input : Bytes) (format : List Directive) :
    sscanf (input.dropWhile isspace) (.int :: format) = sscanf input (.int :: format) := by
  rw [sscanf, sscanf, dropWhile_dropWhile]

/-- A conversion to a word, on a word that fits. -/
theorem sscanf_word_append {size : Nat} (format : List Directive) (hne : word ≠ [])
    (hword : ∀ c ∈ word, isspace c = false) (hfits : word.length < size) (hrest : Breaks rest) :
    sscanf (word ++ rest) (.word size :: format) = (do
      let values ← sscanf rest format
      return .string word :: values) := by
  rw [sscanf, nextWord_append hne hword hrest, afterWord_append hne hword hrest, if_neg hne,
    store_eq_ok_iff.mpr ⟨hfits, rfl⟩, Result.ok_bind]

/-- A word is read back from itself. -/
theorem sscanf_word_self {size : Nat} (hne : word ≠ []) (hword : ∀ c ∈ word, isspace c = false)
    (hfits : word.length < size) : sscanf word [.word size] = .ok [.string word] := by
  have hscan := sscanf_word_append [] hne hword hfits breaks_nil
  rw [List.append_nil] at hscan
  rw [hscan, sscanf]
  rfl

/-- A conversion to a line at the end of a format, on what has no line end. -/
theorem sscanf_line_of_not_mem {size : Nat} {c : UInt8} (hfeed : 10 ∉ input)
    (hfits : input.length < size) : sscanf input [.line size, .literal c] =
      .ok (if input = [] then [] else [.string input]) := by
  have hline : input.takeWhile (· ≠ 10) = input :=
    List.takeWhile_eq_self_iff.mpr fun d hd => by simpa using ne_of_mem_of_not_mem hd hfeed
  have hrest : input.dropWhile (· ≠ 10) = [] := by
    rw [List.dropWhile_eq_nil_iff]
    intro d hd
    simpa using ne_of_mem_of_not_mem hd hfeed
  rw [sscanf, hline, hrest]
  by_cases hempty : input = []
  · rw [if_pos hempty, if_pos hempty]
    rfl
  · rw [if_neg hempty, if_neg hempty, store_eq_ok_iff.mpr ⟨hfits, rfl⟩]
    rfl

theorem isspace_of_mem_nextWord {c : UInt8} (hc : c ∈ nextWord input) : isspace c = false := by
  simpa using List.mem_takeWhile_imp hc

/-- An input is its own first word exactly if it has no white space. -/
theorem nextWord_eq_self_iff : nextWord input = input ↔ ∀ c ∈ input, isspace c = false := by
  constructor
  · intro hself c hc
    exact isspace_of_mem_nextWord (hself.symm ▸ hc)
  · intro hword
    by_cases hne : input = []
    · rw [hne]
      rfl
    · simpa using nextWord_append hne hword breaks_nil

end Words

section Prompts

variable {size : Nat} {typed rest : Bytes}

/-- A conversion that stores a string without a terminator in it. -/
theorem exists_store_string (dest : CharArray size) (hnul : 0 ∉ typed)
    (hfits : typed.length < size) : ∃ array, store_string dest typed = .ok array ∧
      array.string = .ok ⟨typed, hnul, hfits⟩ := by
  rw [store_string, dif_pos hfits]
  refine ⟨_, rfl, ?_⟩
  have hmem : 0 ∈ typed ++ 0 :: dest.bytes.drop (typed.length + 1) :=
    List.mem_append_right _ List.mem_cons_self
  simp only [CharArray.string, hmem, dif_pos, cstr_append_nul hnul]
  rfl

/-- A prompt for a word stores the word that is typed, behind any white space. -/
theorem scanf_word_eq (dest : CharArray size) {before : Bytes}
    (hbefore : ∀ c ∈ before, isspace c = true) (hne : typed ≠ [])
    (hword : ∀ c ∈ typed, isspace c = false) (hnul : 0 ∉ typed) (hfits : typed.length < size)
    (hrest : Breaks rest) : ∃ array, scanf_word dest (before ++ (typed ++ rest)) = .ok (array, rest) ∧
      array.string = .ok ⟨typed, hnul, hfits⟩ := by
  obtain ⟨array, hstore, hstring⟩ := exists_store_string dest hnul hfits
  have hnext : nextWord (before ++ (typed ++ rest)) = typed := by
    rw [← nextWord_dropWhile, dropWhile_isspace_append hbefore, nextWord_dropWhile,
      nextWord_append hne hword hrest]
  have hafter : afterWord (before ++ (typed ++ rest)) = rest := by
    rw [← afterWord_dropWhile, dropWhile_isspace_append hbefore, afterWord_dropWhile,
      afterWord_append hne hword hrest]
  refine ⟨array, ?_, hstring⟩
  rw [scanf_word, hnext, hafter, if_neg hne, hstore]
  rfl

theorem takeWhile_feed (hfeed : 10 ∉ typed) (rest : Bytes) :
    (typed ++ 10 :: rest).takeWhile (· ≠ 10) = typed := by
  rw [List.takeWhile_append_of_pos fun c hc => by simpa using ne_of_mem_of_not_mem hc hfeed]
  simp

theorem dropWhile_feed (hfeed : 10 ∉ typed) (rest : Bytes) :
    (typed ++ 10 :: rest).dropWhile (· ≠ 10) = 10 :: rest := by
  rw [List.dropWhile_append_of_pos fun c hc => by simpa using ne_of_mem_of_not_mem hc hfeed]
  simp

/-- A prompt for a line stores the line that is typed. -/
theorem scanf_line_eq (dest : CharArray size) (hne : typed ≠ []) (hfeed : 10 ∉ typed)
    (hnul : 0 ∉ typed) (hfits : typed.length < size) (rest : Bytes) :
    ∃ array, scanf_line dest (typed ++ 10 :: rest) = .ok (array, 10 :: rest) ∧
      array.string = .ok ⟨typed, hnul, hfits⟩ := by
  obtain ⟨array, hstore, hstring⟩ := exists_store_string dest hnul hfits
  refine ⟨array, ?_, hstring⟩
  rw [scanf_line, takeWhile_feed hfeed, dropWhile_feed hfeed, if_neg hne, hstore]
  rfl

theorem skip_line_eq (hfeed : 10 ∉ typed) (rest : Bytes) :
    skip_line (typed ++ 10 :: rest) = some rest := by
  rw [skip_line, if_pos (List.mem_append_right _ List.mem_cons_self), dropWhile_feed hfeed]
  rfl

end Prompts

section Consumption

variable {size : Nat} {stdin rest : Bytes}

/-- The input that is left behind a conversion is its end. -/
theorem scanf_word_suffix {dest array : CharArray size}
    (hscan : scanf_word dest stdin = .ok (array, rest)) : rest <:+ stdin := by
  have hrest : rest = afterWord stdin := by
    unfold scanf_word at hscan
    split at hscan
    · cases hscan
      rfl
    · obtain ⟨stored, -, hscan⟩ := Result.bind_eq_ok_iff.mp hscan
      cases hscan
      rfl
  rw [hrest, afterWord]
  exact (List.dropWhile_suffix _).trans (List.dropWhile_suffix _)

theorem scanf_line_suffix {dest array : CharArray size}
    (hscan : scanf_line dest stdin = .ok (array, rest)) : rest <:+ stdin := by
  unfold scanf_line at hscan
  split at hscan
  · cases hscan
    exact List.suffix_refl stdin
  · obtain ⟨stored, -, hscan⟩ := Result.bind_eq_ok_iff.mp hscan
    cases hscan
    exact List.dropWhile_suffix _

/-- The line end in front of it is consumed, too. -/
theorem skip_line_suffix (hskip : skip_line stdin = some rest) : 10 :: rest <:+ stdin := by
  unfold skip_line at hskip
  split at hskip
  · rename_i hfeed
    cases hskip
    have hdrop : stdin.dropWhile (· ≠ 10) = 10 :: (stdin.dropWhile (· ≠ 10)).tail := by
      induction stdin with
      | nil => cases hfeed
      | cons c stdin ih =>
        by_cases hc : c = 10
        · simp [hc]
        · have hmem : 10 ∈ stdin := (List.mem_cons.mp hfeed).resolve_left (Ne.symm hc)
          simpa [hc] using ih hmem
    rw [← hdrop]
    exact List.dropWhile_suffix _
  · cases hskip

theorem count_skip_line (hskip : skip_line stdin = some rest) :
    rest.count 10 + 1 ≤ stdin.count 10 := by
  have hcount := (skip_line_suffix hskip).sublist.count_le 10
  rwa [List.count_cons_self] at hcount

end Consumption

section Overlong

variable {input : Bytes} {size limit : Nat} {sizes : List Nat} {format : List Directive}

/-- Some of the first words of an input has no room, with its terminator, in the
array that it is stored in. -/
def Overlong : List Nat → Bytes → Prop
  | [], _ => False
  | size :: sizes, input => size ≤ (nextWord input).length ∨ Overlong sizes (afterWord input)

theorem length_dropWhile_le (p : UInt8 → Bool) (input : Bytes) :
    (input.dropWhile p).length ≤ input.length := (List.dropWhile_suffix p).length_le

theorem length_afterWord_le (input : Bytes) : (afterWord input).length ≤ input.length :=
  (length_dropWhile_le _ _).trans (length_dropWhile_le _ _)

/-- Without a word there is only white space, and nothing behind it. -/
theorem afterWord_eq_nil (hword : nextWord input = []) : afterWord input = [] := by
  rw [nextWord] at hword
  rw [afterWord]
  cases hdrop : input.dropWhile isspace with
  | nil => rfl
  | cons c rest =>
    have hspace : isspace c = false := by
      have hhead := List.head?_dropWhile_not isspace input
      simpa [hdrop] using hhead
    rw [hdrop] at hword
    simp [hspace] at hword

theorem overlong_dropWhile : Overlong sizes (input.dropWhile isspace) ↔ Overlong sizes input := by
  cases sizes <;> simp [Overlong]

theorem not_overlong_nil (hsizes : ∀ size ∈ sizes, 0 < size) : ¬ Overlong sizes [] := by
  induction sizes with
  | nil => exact id
  | cons size sizes ih =>
    have hsize : 0 < size := hsizes size List.mem_cons_self
    rintro (hlong | hlong)
    · exact absurd hlong (Nat.not_le.mpr hsize)
    · exact ih (fun size' hsize' => hsizes size' (List.mem_cons_of_mem _ hsize')) hlong

theorem store_eq_error_iff {scanned : Bytes} {e : Fault} :
    store size scanned = .error e ↔ e = .overflow ∧ size ≤ scanned.length := by
  unfold store
  by_cases hfits : scanned.length < size
  · simp [hfits]
  · simp [hfits, Nat.not_lt.mp hfits, eq_comm]

/-- The conversions of a format fault exactly for inputs with an overlong word.
The inputs are shorter than a limit, which keeps their lines inside of an array of
that size. -/
def Checks (limit : Nat) (format : List Directive) (sizes : List Nat) : Prop :=
  ∀ input, input.length < limit → ∀ e, sscanf input format = .error e ↔
    e = .overflow ∧ Overlong sizes input

theorem checks_nil (limit : Nat) : Checks limit [] [] := by
  intro input _ e
  simp [sscanf, Overlong]

theorem Checks.space (h : Checks limit format sizes) : Checks limit (.space :: format) sizes := by
  intro input hshort e
  have hrest := h (input.dropWhile isspace) ((length_dropWhile_le _ _).trans_lt hshort) e
  rw [sscanf, hrest, overlong_dropWhile]

theorem Checks.literal (h : Checks limit format []) (c : UInt8) :
    Checks limit (.literal c :: format) [] := by
  intro input hshort e
  have hlength : input.tail.length < limit := by
    rw [List.length_tail]
    omega
  have hrest := h input.tail hlength e
  rw [sscanf]
  by_cases hhead : input.head? = some c
  · rw [if_pos hhead, hrest]
    rfl
  · rw [if_neg hhead]
    simp [Overlong]

theorem Checks.word (h : Checks limit format sizes) (hsizes : ∀ size ∈ sizes, 0 < size)
    (hsize : 0 < size) : Checks limit (.word size :: format) (size :: sizes) := by
  intro input hshort e
  rw [sscanf, Overlong]
  by_cases hword : nextWord input = []
  · have hlong : ¬ Overlong sizes (afterWord input) := by
      rw [afterWord_eq_nil hword]
      exact not_overlong_nil hsizes
    simp [hword, hlong]
    omega
  · have hrest := h (afterWord input) ((length_afterWord_le input).trans_lt hshort) e
    rw [if_neg hword, Result.bind_eq_error_iff, store_eq_error_iff]
    constructor
    · rintro (⟨he, hlong⟩ | ⟨value, hstore, hscan⟩)
      · exact ⟨he, Or.inl hlong⟩
      · obtain hscan | ⟨values, -, hscan⟩ := Result.bind_eq_error_iff.mp hscan
        · exact ⟨(hrest.mp hscan).1, Or.inr (hrest.mp hscan).2⟩
        · cases hscan
    · rintro ⟨he, hlong⟩
      by_cases hfits : (nextWord input).length < size
      · right
        refine ⟨_, store_eq_ok_iff.mpr ⟨hfits, rfl⟩, ?_⟩
        have hlater : Overlong sizes (afterWord input) := hlong.resolve_left (Nat.not_le.mpr hfits)
        rw [hrest.mpr ⟨he, hlater⟩]
        rfl
      · exact Or.inl ⟨he, Nat.not_lt.mp hfits⟩

theorem Checks.line (h : Checks limit format []) (hsize : limit ≤ size) :
    Checks limit (.line size :: format) [] := by
  intro input hshort e
  refine iff_of_false ?_ And.right
  have hfits : (input.takeWhile (· ≠ 10)).length < size :=
    ((List.takeWhile_sublist _).length_le.trans_lt hshort).trans_le hsize
  have hrest := h (input.dropWhile (· ≠ 10)) ((length_dropWhile_le _ _).trans_lt hshort) e
  rw [sscanf]
  split
  · simp
  · rw [store_eq_ok_iff.mpr ⟨hfits, rfl⟩, Result.ok_bind, Result.bind_eq_error_iff]
    rintro (hscan | ⟨values, -, hscan⟩)
    · exact (hrest.mp hscan).2
    · cases hscan

theorem length_scan_int_le {value : BitVec 32} {rest : Bytes}
    (hscan : scan_int input = some (value, rest)) : rest.length ≤ input.length := by
  obtain ⟨-, hscan⟩ := Option.ite_none_left_eq_some.mp hscan
  simp only [Option.some.injEq, Prod.mk.injEq] at hscan
  obtain ⟨-, rfl⟩ := hscan
  refine (length_dropWhile_le _ _).trans ?_
  split
  · rw [List.length_tail]
    omega
  · exact le_refl _

theorem Checks.int (h : Checks limit format []) : Checks limit (.int :: format) [] := by
  intro input hshort e
  refine iff_of_false ?_ And.right
  rw [sscanf]
  cases hscan : scan_int (input.dropWhile isspace) with
  | none => simp
  | some found =>
    obtain ⟨value, rest⟩ := found
    have hrest : rest.length < limit :=
      ((length_scan_int_le hscan).trans (length_dropWhile_le _ _)).trans_lt hshort
    simp only [Result.bind_eq_error_iff]
    rintro (hfault | ⟨values, -, hfault⟩)
    · exact ((h rest hrest e).mp hfault).2
    · cases hfault

end Overlong

section Subset

variable {input string : Bytes} {format : List Directive} {values : List Value}

theorem scan_int_subset {value : BitVec 32} {rest : Bytes}
    (hscan : scan_int input = some (value, rest)) : rest ⊆ input := by
  obtain ⟨-, hscan⟩ := Option.ite_none_left_eq_some.mp hscan
  simp only [Option.some.injEq, Prod.mk.injEq] at hscan
  obtain ⟨-, rfl⟩ := hscan
  refine List.Subset.trans (List.dropWhile_sublist _).subset ?_
  split
  · exact (List.tail_sublist input).subset
  · exact List.Subset.refl input

/-- A value is stored in front of what the rest of a format stores. -/
theorem subset_of_store {size : Nat} {scanned rest : Bytes}
    (hrest : ∀ {values}, sscanf rest format = .ok values → .string string ∈ values → string ⊆ rest)
    (hscanned : scanned ⊆ input) (hinput : rest ⊆ input)
    (hstore : (do
      let value ← store size scanned
      let values ← sscanf rest format
      return value :: values) = .ok values)
    (hstring : .string string ∈ values) : string ⊆ input := by
  obtain ⟨value, hvalue, hstore⟩ := Result.bind_eq_ok_iff.mp hstore
  obtain ⟨stored, hscan, hstore⟩ := Result.bind_eq_ok_iff.mp hstore
  obtain ⟨-, rfl⟩ := store_eq_ok_iff.mp hvalue
  cases hstore
  obtain hsame | hmem := List.mem_cons.mp hstring
  · cases hsame
    exact hscanned
  · exact List.Subset.trans (hrest hscan hmem) hinput

/-- Every string that is stored is made of characters of the input. -/
theorem subset_of_sscanf (hscan : sscanf input format = .ok values)
    (hstring : .string string ∈ values) : string ⊆ input := by
  have hdrop (p : UInt8 → Bool) (input : Bytes) : input.dropWhile p ⊆ input :=
    (List.dropWhile_sublist p).subset
  have htake (p : UInt8 → Bool) (input : Bytes) : input.takeWhile p ⊆ input :=
    (List.takeWhile_sublist p).subset
  induction format generalizing input values with
  | nil =>
    cases hscan
    cases hstring
  | cons directive format ih =>
    cases directive with
    | space =>
      rw [sscanf_space] at hscan
      exact List.Subset.trans (ih hscan hstring) (hdrop _ _)
    | literal c =>
      rw [sscanf] at hscan
      split at hscan
      · exact List.Subset.trans (ih hscan hstring) (List.tail_sublist input).subset
      · cases hscan
        cases hstring
    | word size =>
      rw [sscanf] at hscan
      split at hscan
      · cases hscan
        cases hstring
      · exact subset_of_store ih (List.Subset.trans (htake _ _) (hdrop _ _))
          (List.Subset.trans (hdrop _ _) (hdrop _ _)) hscan hstring
    | line size =>
      rw [sscanf] at hscan
      split at hscan
      · cases hscan
        cases hstring
      · exact subset_of_store ih (htake _ _) (hdrop _ _) hscan hstring
    | int =>
      rw [sscanf] at hscan
      split at hscan
      · cases hscan
        cases hstring
      · rename_i value rest hint
        obtain ⟨stored, hrest, hscan⟩ := Result.bind_eq_ok_iff.mp hscan
        cases hscan
        obtain hsame | hmem := List.mem_cons.mp hstring
        · cases hsame
        · exact List.Subset.trans (List.Subset.trans (ih hrest hmem) (scan_int_subset hint))
            (hdrop _ _)

end Subset

example : sscanf (text " ana  \t12 rest") [.word 16, .space, .int] =
    .ok [.string (text "ana"), .int 12] := by decide

example : sscanf (text "ana") [.word 3] = .error .overflow := by decide

end rc_project.scanf
