import WebLib.Search

/-! # Byte strings

    `std::string` as a list of bytes, with the standard-library functions the
    server calls on it: `find`, `substr`, `std::views::split`, `std::getline`,
    `std::isspace`, `std::tolower`, `std::stoi`.  A `size_t` is a natural
    number; the one operation that can wrap, subtraction, wraps explicitly. -/

namespace WebLib

/-- A `char`, by its bit pattern. -/
abbrev Byte := UInt8

/-- `std::string`, and the text a `std::string_view` shows. -/
abbrev Str := List Byte

/-- A text literal. -/
def str (s : String) : Str := s.toList.map fun c => UInt8.ofNat c.toNat

/-- What a C++ exception of the library is; texts are those of `what()`. -/
inductive Exn where
  | runtime_error (what : Str)
  | invalid_argument
  | out_of_range
  | header_parsing_error
  | query_parsing_error (what : Str)
  | endpoint_already_set
  | filter_before_controller
  | empty_cookie
deriving DecidableEq, Repr

/-- How a call can fail to return: it throws, or its behaviour is undefined. -/
inductive Fault where
  | throws (e : Exn)
  | undefined
deriving DecidableEq, Repr

namespace ByteString

/-! ## Positions -/

/-- Number of `size_t` values. -/
def sizeMod : Nat := 2 ^ 64

/-- `std::string::npos`. -/
def npos : Nat := sizeMod - 1

/-- `a - b` on `size_t`. -/
def size_sub (a b : Nat) : Nat := if b ≤ a then a - b else a + sizeMod - b

theorem size_sub_of_le {a b : Nat} (h : b ≤ a) : size_sub a b = a - b := if_pos h

/-- `substr(pos, count)`: `count` is cut to what is left after `pos`. -/
def substr (s : Str) (pos count : Nat) : Except Fault Str :=
  if pos ≤ s.length then .ok ((s.drop pos).take count)
  else .error (.throws .out_of_range)

theorem substr_of_le {s : Str} {pos : Nat} (count : Nat) (h : pos ≤ s.length) :
    substr s pos count = .ok ((s.drop pos).take count) := if_pos h

/-- `std::string_view{s.data() + pos, count}`: the range must lie in the text. -/
def string_view (s : Str) (pos count : Nat) : Except Fault Str :=
  if pos + count ≤ s.length then .ok ((s.drop pos).take count) else .error .undefined

/-- `find(c, pos)`. -/
def find_from (c : Byte) (s : Str) (pos : Nat) : Option Nat :=
  (Search.find [c] (s.drop pos)).map (· + pos)

/-- `find(c)`. -/
abbrev find_char (c : Byte) (s : Str) : Option Nat := Search.find [c] s

/-! ## Pieces -/

/-- `std::views::split` on one character: no piece for an empty range, and an
    empty last piece after a final delimiter. -/
def views_split (c : Byte) (s : Str) : List Str :=
  if s = [] then [] else s.splitOn c

/-- One piece more than delimiters. -/
theorem length_views_split {c : Byte} {s : Str} (hs : s ≠ []) :
    (views_split c s).length = s.count c + 1 := by
  have hsplit : ∀ s : Str, (s.splitOn c).length = s.count c + 1 := by
    intro s
    induction s with
    | nil => simp
    | cons a s ih =>
        rw [List.splitOn_cons_eq_if_modifyHead, List.count_cons]
        by_cases ha : a == c
        · rw [if_pos ha, if_pos ha, List.length_cons, ih]
        · rw [if_neg ha, if_neg ha, List.length_modifyHead, ih]
  rw [views_split, if_neg hs, hsplit]

/-- Two pieces around the only delimiter. -/
theorem views_split_pair {c : Byte} {a b : Str} (ha : c ∉ a) (hb : c ∉ b) :
    views_split c (a ++ c :: b) = [a, b] := by
  rw [views_split, if_neg (by simp), List.splitOn_append_cons_self_of_not_mem ha,
    List.splitOn_eq_singleton hb]

/-- Splitting undoes joining. -/
theorem views_split_intercalate {c : Byte} {pieces : List Str}
    (h : ∀ piece ∈ pieces, c ∉ piece ∧ piece ≠ []) :
    views_split c ([c].intercalate pieces) = pieces := by
  cases pieces with
  | nil => rfl
  | cons piece pieces =>
      have hne : [c].intercalate (piece :: pieces) ≠ [] := by
        have hpiece := (h piece List.mem_cons_self).2
        cases pieces with
        | nil => rwa [List.intercalate_singleton]
        | cons next pieces =>
            rw [List.intercalate_cons_cons]
            simp [hpiece]
      rw [views_split, if_neg hne]
      exact List.splitOn_intercalate c (fun p hp => (h p hp).1) (List.cons_ne_nil _ _)

/-- No piece has the delimiter. -/
theorem notMem_of_mem_views_split {c : Byte} {s piece : Str} (h : piece ∈ views_split c s) :
    c ∉ piece := by
  have hsplit : ∀ s : Str, ∀ piece ∈ s.splitOn c, c ∉ piece := by
    intro s
    induction s with
    | nil => simp
    | cons a s ih =>
        intro piece hp
        rw [List.splitOn_cons_eq_if_modifyHead] at hp
        by_cases ha : a == c
        · rw [if_pos ha] at hp
          rcases List.mem_cons.mp hp with rfl | hp
          · exact List.not_mem_nil
          · exact ih piece hp
        · rw [if_neg ha] at hp
          cases hs : s.splitOn c with
          | nil => exact absurd hs (List.splitOn_ne_nil c s)
          | cons first rest =>
              rw [hs] at hp ih
              rcases List.mem_cons.mp hp with rfl | hp
              · have hac : c ≠ a := fun he => ha (beq_iff_eq.mpr he.symm)
                simp [hac, ih first List.mem_cons_self]
              · exact ih piece (List.mem_cons_of_mem _ hp)
  rw [views_split] at h
  split at h
  · cases h
  · exact hsplit s piece h

/-- Every byte of a piece is one of the joined text. -/
theorem subset_intercalate (c : Byte) :
    ∀ pieces : List Str, ∀ piece ∈ pieces, piece ⊆ [c].intercalate pieces
  | [piece], _, h => by
      rw [List.intercalate_singleton, List.mem_singleton.mp h]
      exact List.Subset.refl _
  | first :: next :: pieces, piece, h => by
      rw [List.intercalate_cons_cons]
      rcases List.mem_cons.mp h with rfl | h
      · exact List.subset_append_of_subset_left _ (List.subset_append_left _ _)
      · exact List.subset_append_of_subset_right _ (subset_intercalate c (next :: pieces) piece h)

/-- Joining brings in the delimiter only. -/
theorem notMem_intercalate {b c : Byte} (hb : b ≠ c) {pieces : List Str}
    (h : ∀ piece ∈ pieces, b ∉ piece) : b ∉ [c].intercalate pieces := by
  induction pieces with
  | nil => exact List.not_mem_nil
  | cons first pieces ih =>
      obtain ⟨hfirst, hrest⟩ := List.forall_mem_cons.mp h
      cases pieces with
      | nil => rwa [List.intercalate_singleton]
      | cons next pieces =>
          rw [List.intercalate_cons_cons]
          simp [hfirst, hb, ih hrest]

theorem subset_of_mem_views_split {c : Byte} {s piece : Str} (h : piece ∈ views_split c s) :
    piece ⊆ s := by
  rw [views_split] at h
  split at h
  · cases h
  · have hsub := subset_intercalate c _ piece h
    rwa [List.intercalate_splitOn] at hsub

/-- The lines `std::getline` reads: a text ending in a newline has no further
    empty line after it. -/
def getlines (s : Str) : List Str :=
  let lines := s.splitOn 10
  if lines.getLast? = some [] then lines.dropLast else lines

/-- A text without a carriage return and a line feed. -/
def OneLine (s : Str) : Prop := (13 : Byte) ∉ s ∧ (10 : Byte) ∉ s

instance (s : Str) : Decidable (OneLine s) := inferInstanceAs (Decidable (_ ∧ _))

@[simp] theorem oneLine_nil : OneLine [] := ⟨List.not_mem_nil, List.not_mem_nil⟩

@[simp] theorem oneLine_append {s t : Str} : OneLine (s ++ t) ↔ OneLine s ∧ OneLine t := by
  simp only [OneLine, List.mem_append]
  tauto

/-! ## Character classes -/

/-- `isspace` in the C locale, on an `int` argument. -/
def isspace (c : Int) : Bool := c == 32 || (9 ≤ c && c ≤ 13)

/-- The value of a `char` where `char` is signed. -/
def signed_char (b : Byte) : Int := if b < 128 then b.toNat else b.toNat - 256

/-- White space, as a byte. -/
def isWs (b : Byte) : Bool := isspace b.toNat

theorem visible_of_all {s : Str} (h : (s.all fun b => !isWs b) = true) :
    ∀ b ∈ s, isWs b = false := by
  intro b hb
  simpa using List.all_eq_true.mp h b hb

/-- `std::tolower` in the C locale. -/
def tolower (b : Byte) : Byte := if 65 ≤ b && b ≤ 90 then b + 32 else b

theorem tolower_of_isWs {b : Byte} (h : isWs b = true) : tolower b = b := by
  have hb : b.toNat ≤ 32 := by
    simp only [isWs, isspace, Bool.or_eq_true, beq_iff_eq, Bool.and_eq_true,
      decide_eq_true_eq] at h
    omega
  have hlow : ¬ (65 ≤ b) := by
    intro hle
    have hnat : 65 ≤ b.toNat := by simpa using UInt8.le_iff_toNat_le.mp hle
    omega
  rw [tolower, if_neg (by simp [hlow])]

theorem tolower_idem (b : Byte) : tolower (tolower b) = tolower b := by
  have hupper : ∀ b : Byte, (65 ≤ b && b ≤ 90) = true ↔ 65 ≤ b.toNat ∧ b.toNat ≤ 90 := by
    intro b
    simp [UInt8.le_iff_toNat_le]
  by_cases h : (65 ≤ b && b ≤ 90) = true
  · -- 32 above an upper-case letter there is none
    have hlow : ¬ (65 ≤ b + 32 && b + 32 ≤ 90) = true := by
      rw [hupper, UInt8.toNat_add]
      have hb := (hupper b).mp h
      have h32 : (32 : Byte).toNat = 32 := rfl
      omega
    have hb : tolower b = b + 32 := if_pos h
    rw [hb, tolower, if_neg hlow]
  · have hb : tolower b = b := if_neg h
    rw [hb, hb]

def isdigit (b : Byte) : Bool := 48 ≤ b && b ≤ 57

/-- The signed and the unsigned reading of a byte agree on white space. -/
theorem isspace_signed_char (b : Byte) : isspace (signed_char b) = isWs b := by
  rw [isWs, signed_char]
  by_cases h : b < 128
  · rw [if_pos h]
  · rw [if_neg h]
    -- from 128 on the signed value is negative and the unsigned one too large
    have hlt := b.toNat_lt
    have hge : 128 ≤ b.toNat := by
      rw [UInt8.lt_iff_toNat_lt] at h
      simpa using h
    have h1 : isspace ((b.toNat : Int) - 256) = false := by
      simp only [isspace, Bool.or_eq_false_iff, Bool.and_eq_false_iff,
        beq_eq_false_iff_ne, decide_eq_false_iff_not]
      omega
    have h2 : isspace (b.toNat : Int) = false := by
      simp only [isspace, Bool.or_eq_false_iff, Bool.and_eq_false_iff,
        beq_eq_false_iff_ne, decide_eq_false_iff_not]
      omega
    rw [h1, h2]

/-! ## Numbers -/

/-- Largest and smallest `int`. -/
def INT_MAX : Int := 2147483647
def INT_MIN : Int := -2147483648

/-- Conversion to a 32-bit `int`. -/
def to_int (n : Int) : Int := n.bmod (2 ^ 32)

theorem to_int_of_mem {n : Int} (h0 : INT_MIN ≤ n) (h1 : n ≤ INT_MAX) : to_int n = n := by
  rw [to_int, INT_MIN, INT_MAX] at *
  rw [Int.bmod_def]
  omega

/-- The number a run of decimal digits writes. -/
def decimal (ds : Str) : Nat := ds.foldl (fun n d => 10 * n + (d.toNat - 48)) 0

theorem byte_of_digit {c : Char} (h : c.isDigit = true) :
    (UInt8.ofNat c.toNat).toNat = c.toNat ∧ isdigit (UInt8.ofNat c.toNat) = true := by
  have hc : 48 ≤ c.toNat ∧ c.toNat ≤ 57 := by
    simpa [Char.isDigit, UInt32.le_iff_toNat_le] using h
  have ht : (UInt8.ofNat c.toNat).toNat = c.toNat := by
    rw [UInt8.toNat_ofNat']
    omega
  refine ⟨ht, ?_⟩
  simp only [isdigit, Bool.and_eq_true, decide_eq_true_eq, UInt8.le_iff_toNat_le, ht]
  exact hc

/-- What is written for a natural number: digits, -/
theorem isdigit_of_nat (n : Nat) : ∀ b ∈ str (toString n), isdigit b = true := by
  intro b hb
  obtain ⟨c, hc, rfl⟩ := List.mem_map.mp hb
  have htext : (toString n).toList = Nat.toDigits 10 n := Nat.toList_repr
  rw [htext] at hc
  exact (byte_of_digit (Nat.isDigit_of_mem_toDigits (by decide) (by decide) hc)).2

/-- at least one, -/
theorem str_nat_ne_nil (n : Nat) : str (toString n) ≠ [] := by
  have htext : (toString n).toList = Nat.toDigits 10 n := Nat.toList_repr
  rw [str, htext]
  simp [Nat.toDigits_ne_nil]

/-- that read back as the number. -/
theorem decimal_of_nat (n : Nat) : decimal (str (toString n)) = n := by
  have htext : (toString n).toList = Nat.toDigits 10 n := Nat.toList_repr
  have hdigits := @Nat.ofDigitChars_ten_toDigits n
  rw [Nat.ofDigitChars_eq_foldl] at hdigits
  rw [decimal, str, htext, List.foldl_map]
  conv_rhs => rw [← hdigits]
  refine List.foldl_ext _ _ _ ?_
  intro a c hc
  have hbyte := (byte_of_digit (Nat.isDigit_of_mem_toDigits (by decide) (by decide) hc)).1
  rw [hbyte]
  rfl

theorem str_negSucc (m : Nat) : str (toString (Int.negSucc m)) = 45 :: str (toString (m + 1)) := by
  simp only [toString, Int.repr, str, String.toList_append, List.map_append]
  rfl

/-- A number is written with digits and a sign. -/
theorem bytes_of_int (n : Int) : ∀ b ∈ str (toString n), isdigit b = true ∨ b = 45 := by
  intro b hb
  cases n with
  | ofNat m => exact Or.inl (isdigit_of_nat m b hb)
  | negSucc m =>
      rw [str_negSucc] at hb
      rcases List.mem_cons.mp hb with rfl | hb
      · exact Or.inr rfl
      · exact Or.inl (isdigit_of_nat (m + 1) b hb)

theorem oneLine_of_int (n : Int) : OneLine (str (toString n)) := by
  constructor <;> intro hb <;> rcases bytes_of_int n _ hb with h | h <;> revert h <;> decide

/-- The sign and the digits `strtol` finds after leading white space. -/
def strtol_parts (s : Str) : Bool × Str :=
  match s.dropWhile isWs with
  | 45 :: t => (true, t.takeWhile isdigit)
  | 43 :: t => (false, t.takeWhile isdigit)
  | t => (false, t.takeWhile isdigit)

/-- The number they write. -/
def strtol_value (s : Str) : Int :=
  if (strtol_parts s).1 then - (decimal (strtol_parts s).2 : Int)
  else decimal (strtol_parts s).2

/-- `std::stoi`: the text after the digits is ignored. -/
def stoi (s : Str) : Except Exn Int :=
  if (strtol_parts s).2 = [] then .error .invalid_argument
  else if strtol_value s < INT_MIN ∨ INT_MAX < strtol_value s then .error .out_of_range
  else .ok (strtol_value s)

end ByteString

end WebLib
