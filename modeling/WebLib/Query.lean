import WebLib.RoundTrip
import WebLib.Wire

/-! # `Query`: a parameter as a number

    `as<int>` and `as<int64_t>` check that the content is not empty and leave the
    rest to `std::stoi` and `std::stoll`, which skip white space, take a sign and
    as many digits as there are, and ignore what follows.  What they accept is
    stated here as a grammar, and a number in the path of a request is followed
    to the handler that asks for it. -/

namespace WebLib.Query

open WebLib ByteString Utils UnorderedMap ReadRequest RequestText HttpBinder HttpQuery HttpRequest
  RoundTrip Decoding Wire

/-! ## The conversions -/

/-- Largest and smallest `long long`. -/
def LLONG_MAX : Int := 9223372036854775807
def LLONG_MIN : Int := -9223372036854775808

/-- `std::stoll`. -/
def stoll (s : Str) : Except Exn Int :=
  if (strtol_parts s).2 = [] then .error .invalid_argument
  else if strtol_value s < LLONG_MIN ∨ LLONG_MAX < strtol_value s then .error .out_of_range
  else .ok (strtol_value s)

/-- `as<T>` of this content, with the function that converts to `T`. -/
def as_number (convert : Str → Except Exn Int) (m_content : Str) : Except Exn Int :=
  if m_content = [] then .error .invalid_argument else convert m_content

/-- `as<int>`. -/
def as_int : Str → Except Exn Int := as_number stoi

/-- `as<int64_t>`. -/
def as_int64 : Str → Except Exn Int := as_number stoll

/-! ## What they accept -/

/-- White space, perhaps a sign, decimal digits for `n`, and anything that does
    not go on with a digit. -/
inductive Numeral : Str → Int → Prop where
  | plain {blank digits rest : Str} (hblank : ∀ b ∈ blank, isWs b = true) (hne : digits ≠ [])
      (hdigits : ∀ b ∈ digits, isdigit b = true) (hrest : ∀ b ∈ rest.head?, isdigit b = false) :
      Numeral (blank ++ (digits ++ rest)) (decimal digits)
  | plus {blank digits rest : Str} (hblank : ∀ b ∈ blank, isWs b = true) (hne : digits ≠ [])
      (hdigits : ∀ b ∈ digits, isdigit b = true) (hrest : ∀ b ∈ rest.head?, isdigit b = false) :
      Numeral (blank ++ 43 :: (digits ++ rest)) (decimal digits)
  | minus {blank digits rest : Str} (hblank : ∀ b ∈ blank, isWs b = true) (hne : digits ≠ [])
      (hdigits : ∀ b ∈ digits, isdigit b = true) (hrest : ∀ b ∈ rest.head?, isdigit b = false) :
      Numeral (blank ++ 45 :: (digits ++ rest)) (-(decimal digits : Int))

theorem dropWhile_blank {blank t : Str} (hblank : ∀ b ∈ blank, isWs b = true)
    (ht : ∀ b ∈ t.head?, isWs b = false) : (blank ++ t).dropWhile isWs = t := by
  rw [List.dropWhile_append_of_pos hblank]
  cases t with
  | nil => rfl
  | cons b t => exact List.dropWhile_cons_of_neg (by simp [ht b rfl])

theorem takeWhile_digits {digits rest : Str} (hdigits : ∀ b ∈ digits, isdigit b = true)
    (hrest : ∀ b ∈ rest.head?, isdigit b = false) :
    (digits ++ rest).takeWhile isdigit = digits := by
  rw [List.takeWhile_append_of_pos hdigits]
  cases rest with
  | nil => rw [List.takeWhile_nil, List.append_nil]
  | cons b rest => rw [List.takeWhile_cons_of_neg (by simp [hrest b rfl]), List.append_nil]

/-- `strtol` on a numeral takes its sign and its digits. -/
theorem Numeral.reads {s : Str} {n : Int} (h : Numeral s n) :
    (strtol_parts s).2 ≠ [] ∧ strtol_value s = n := by
  cases h with
  | @plain blank digits rest hblank hne hdigits hrest =>
      obtain ⟨b, t, rfl⟩ := List.exists_cons_of_ne_nil hne
      obtain ⟨hb, h45, h43⟩ := isdigit_visible (hdigits b List.mem_cons_self)
      have hdrop : (blank ++ (b :: t ++ rest)).dropWhile isWs = b :: (t ++ rest) :=
        dropWhile_blank hblank fun c hc => by cases hc; exact hb
      have hparts : strtol_parts (blank ++ (b :: t ++ rest)) = (false, b :: t) := by
        rw [strtol_parts, hdrop]
        split
        · next heq => exact absurd (List.cons.inj heq).1 h45
        · next heq => exact absurd (List.cons.inj heq).1 h43
        · rw [← List.cons_append, takeWhile_digits hdigits hrest]
      refine ⟨by rw [hparts]; exact hne, ?_⟩
      rw [strtol_value, hparts]
      rfl
  | @plus blank digits rest hblank hne hdigits hrest =>
      have hparts : strtol_parts (blank ++ 43 :: (digits ++ rest)) = (false, digits) := by
        rw [strtol_parts, dropWhile_blank hblank fun c hc => by cases hc; decide]
        exact congrArg (Prod.mk false) (takeWhile_digits hdigits hrest)
      refine ⟨by rw [hparts]; exact hne, ?_⟩
      rw [strtol_value, hparts]
      rfl
  | @minus blank digits rest hblank hne hdigits hrest =>
      have hparts : strtol_parts (blank ++ 45 :: (digits ++ rest)) = (true, digits) := by
        rw [strtol_parts, dropWhile_blank hblank fun c hc => by cases hc; decide]
        exact congrArg (Prod.mk true) (takeWhile_digits hdigits hrest)
      refine ⟨by rw [hparts]; exact hne, ?_⟩
      rw [strtol_value, hparts]
      rfl

theorem head_dropWhile_digit (t : Str) :
    ∀ b ∈ (t.dropWhile isdigit).head?, isdigit b = false := by
  intro b hb
  have hnot := List.head?_dropWhile_not isdigit t
  rw [Option.mem_def.mp hb] at hnot
  simpa using hnot

/-- A minus, a plus, or neither. -/
theorem strtol_parts_cases (s : Str) :
    (∃ t, s.dropWhile isWs = 45 :: t ∧ strtol_parts s = (true, t.takeWhile isdigit))
      ∨ (∃ t, s.dropWhile isWs = 43 :: t ∧ strtol_parts s = (false, t.takeWhile isdigit))
      ∨ strtol_parts s = (false, (s.dropWhile isWs).takeWhile isdigit) := by
  rw [strtol_parts]
  split
  · next t heq => exact Or.inl ⟨t, heq, rfl⟩
  · next t heq => exact Or.inr (Or.inl ⟨t, heq, rfl⟩)
  · exact Or.inr (Or.inr rfl)

/-- What `strtol` takes is a numeral. -/
theorem numeral_of_parts {s : Str} (h : (strtol_parts s).2 ≠ []) : Numeral s (strtol_value s) := by
  have hsplit : s.takeWhile isWs ++ s.dropWhile isWs = s := List.takeWhile_append_dropWhile
  have hblank : ∀ b ∈ s.takeWhile isWs, isWs b = true := fun b hb => List.mem_takeWhile_imp hb
  have hdigits : ∀ t : Str, ∀ b ∈ t.takeWhile isdigit, isdigit b = true :=
    fun t b hb => List.mem_takeWhile_imp hb
  have hcut : ∀ t : Str, t.takeWhile isdigit ++ t.dropWhile isdigit = t :=
    fun t => List.takeWhile_append_dropWhile
  rw [strtol_value]
  obtain ⟨t, ht, hparts⟩ | ⟨t, ht, hparts⟩ | hparts := strtol_parts_cases s
  · rw [hparts] at h ⊢
    have hnumeral := Numeral.minus hblank h (hdigits t) (head_dropWhile_digit t)
    rwa [hcut t, ← ht, hsplit] at hnumeral
  · rw [hparts] at h ⊢
    have hnumeral := Numeral.plus hblank h (hdigits t) (head_dropWhile_digit t)
    rwa [hcut t, ← ht, hsplit] at hnumeral
  · rw [hparts] at h ⊢
    have hnumeral :=
      Numeral.plain hblank h (hdigits _) (head_dropWhile_digit (s.dropWhile isWs))
    rwa [hcut, hsplit] at hnumeral

/-- The text of a numeral is not empty. -/
theorem Numeral.ne_nil {s : Str} {n : Int} (h : Numeral s n) : s ≠ [] := by
  rintro rfl
  exact h.reads.1 rfl

/-- A text is a numeral for one number at most: what `strtol` reads. -/
theorem numeral_iff {s : Str} {n : Int} :
    Numeral s n ↔ (strtol_parts s).2 ≠ [] ∧ strtol_value s = n := by
  refine ⟨Numeral.reads, ?_⟩
  rintro ⟨hne, rfl⟩
  exact numeral_of_parts hne

theorem digits_of_nat (m : Nat) :
    str (toString m) ≠ [] ∧ (∀ b ∈ str (toString m), isdigit b = true)
      ∧ ∀ b ∈ ([] : Str).head?, isdigit b = false :=
  ⟨str_nat_ne_nil m, isdigit_of_nat m, fun _ h => nomatch h⟩

/-- What is written for an integer is a numeral for it. -/
theorem numeral_of_int (n : Int) : Numeral (str (toString n)) n := by
  cases n with
  | ofNat m =>
      obtain ⟨hne, hdigits, hrest⟩ := digits_of_nat m
      have hplain := Numeral.plain (List.forall_mem_nil _) hne hdigits hrest
      rwa [List.nil_append, List.append_nil, decimal_of_nat] at hplain
  | negSucc m =>
      obtain ⟨hne, hdigits, hrest⟩ := digits_of_nat (m + 1)
      have hminus := Numeral.minus (List.forall_mem_nil _) hne hdigits hrest
      rw [List.nil_append, List.append_nil, decimal_of_nat] at hminus
      rwa [str_negSucc]

/-! ## The conversions against the grammar -/

/-- The conversion gives the number of a numeral between the bounds and throws
    otherwise: `out_of_range` for another numeral, `invalid_argument` for a text
    that is none. -/
structure Converts (convert : Str → Except Exn Int) (lo hi : Int) : Prop where
  ok_iff : ∀ s n, convert s = .ok n ↔ Numeral s n ∧ lo ≤ n ∧ n ≤ hi
  out_of_range_iff : ∀ s,
    convert s = .error .out_of_range ↔ ∃ n, Numeral s n ∧ ¬ (lo ≤ n ∧ n ≤ hi)
  invalid_iff : ∀ s, convert s = .error .invalid_argument ↔ ¬ ∃ n, Numeral s n

/-- The two library functions differ in their bounds. -/
theorem converts_of_bounds {convert : Str → Except Exn Int} {lo hi : Int}
    (h : ∀ s, convert s = if (strtol_parts s).2 = [] then .error .invalid_argument
      else if strtol_value s < lo ∨ hi < strtol_value s then .error .out_of_range
      else .ok (strtol_value s)) : Converts (as_number convert) lo hi := by
  have hnumber : ∀ s, as_number convert s = convert s := by
    intro s
    rw [as_number]
    split
    · next hs => rw [h, hs, if_pos (by rfl)]
    · rfl
  have hnumeral : ∀ s, (∃ n, Numeral s n) ↔ (strtol_parts s).2 ≠ [] :=
    fun s => ⟨fun ⟨_, hn⟩ => hn.reads.1, fun hne => ⟨_, numeral_of_parts hne⟩⟩
  refine ⟨?_, ?_, ?_⟩
  · intro s n
    rw [hnumber, h, numeral_iff]
    split
    · next hnil => simp [hnil]
    · next hne =>
        split
        · next hout =>
            refine iff_of_false (fun hc => by cases hc) ?_
            rintro ⟨⟨-, rfl⟩, hlo, hhi⟩
            omega
        · next hin =>
            constructor
            · intro hc
              cases hc
              exact ⟨⟨hne, rfl⟩, by omega, by omega⟩
            · rintro ⟨⟨-, rfl⟩, -⟩
              rfl
  · intro s
    simp only [hnumber, h, numeral_iff]
    split
    · next hnil => simp [hnil]
    · next hne =>
        split
        · next hout => exact iff_of_true rfl ⟨_, ⟨hne, rfl⟩, by omega⟩
        · next hin =>
            refine iff_of_false (fun hc => by cases hc) ?_
            rintro ⟨n, ⟨-, rfl⟩, hbounds⟩
            omega
  · intro s
    rw [hnumber, h, hnumeral, not_not]
    split
    · next hnil => exact iff_of_true rfl hnil
    · next hne =>
        refine iff_of_false ?_ hne
        split <;> intro hc <;> cases hc

/-- **AS A NUMBER**: `as<int>` and `as<int64_t>` accept the texts that start like a
    number which the type has, and tell the other numbers from the other texts. -/
theorem conversions :
    Converts as_int INT_MIN INT_MAX ∧ Converts as_int64 LLONG_MIN LLONG_MAX :=
  ⟨converts_of_bounds fun _ => rfl, converts_of_bounds fun _ => rfl⟩

example : as_int (str " -12abc") = .ok (-12) ∧ as_int (str "- 12") = .error .invalid_argument
    ∧ as_int (str "2147483648") = .error .out_of_range
    ∧ as_int64 (str "2147483648") = .ok 2147483648 := by decide

/-! ## In the path of a request -/

/-- The numeral `n`, read as a type with these bounds. -/
def bounded (lo hi n : Int) : Except Exn Int :=
  if lo ≤ n ∧ n ≤ hi then .ok n else .error .out_of_range

theorem Converts.of_numeral {convert : Str → Except Exn Int} {lo hi n : Int} {s : Str}
    (h : Converts convert lo hi) (hn : Numeral s n) : convert s = bounded lo hi n := by
  rw [bounded]
  split
  · next hin => exact (h.ok_iff s n).mpr ⟨hn, hin⟩
  · next hout => exact (h.out_of_range_iff s).mpr ⟨n, hn, hout⟩

/-- The query of a request to an instance of a template binds its placeholders. -/
theorem extract_queries_parts {t : Template} {σ : t.Assignment} {P : Parts}
    (htarget : P.target = t.path σ) (hhttp : ¬ HTTP <:+: t.path σ) (hne : t.names ≠ []) :
    extract_queries P.bytes t.written (extract_params t.written)
      = .ok (emplace_all ∅ (t.texts σ)) := by
  have hslash : (47 : Byte) ∉ req_type_to_str P.method := by cases P.method <;> decide
  have hmethod : ¬ HTTP <:+: req_type_to_str P.method := by cases P.method <;> decide
  have hbytes : P.bytes = req_type_to_str P.method ++ 32 :: (t.path σ ++ 32 :: (HTTP
      ++ (47 :: P.version ++ (CRNL ++ (header_text P.headers ++ (CRNLCRNL ++ P.body)))))) := by
    simp [Parts.bytes, Parts.first_line, htarget, HTTP]
  refine Template.parse_filled hne ?_
  rw [hbytes]
  exact request_path_line _ hslash hmethod hhttp

/-- A page that an `int` does not have. -/
def large_page : template_page.Assignment where
  value x := if x = str "id" then str "-42" else str "3000000000"
  value_ok := by decide

/-- A request for it. -/
def large_page_request : Parts :=
  { wire_message.toParts with
    target := template_page.path large_page
    target_ok := visible_of_all (by decide) }

end WebLib.Query
