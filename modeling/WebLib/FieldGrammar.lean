import WebLib.Decoding

/-! # Header fields with optional white space

    A field is a name, a colon and a value, with any blanks around the value.
    The reader trims the line and then takes the value from two bytes behind
    the colon.  Without a blank there the first byte of the value is gone, and
    with nothing there the position is past the end. -/

namespace WebLib.FieldGrammar

open WebLib ByteString Utils UnorderedMap HttpHeaders ReadRequest RequestText Decoding

/-- The parts of a line. -/
structure Field where
  name : Str
  before : Str
  value : Str
  behind : Str
deriving DecidableEq, Repr

def Field.line (f : Field) : Str := f.name ++ 58 :: (f.before ++ (f.value ++ f.behind))

/-- A field of the grammar; the value may be empty. -/
structure FieldOk (f : Field) : Prop where
  name_ne : f.name ≠ []
  colon : 58 ∉ f.name
  name_visible : ∀ b ∈ f.name, isWs b = false
  before : ∀ b ∈ f.before, b = 32 ∨ b = 9
  behind : ∀ b ∈ f.behind, b = 32 ∨ b = 9
  value_line : OneLine f.value
  value : f.value = [] ∨ Trimmed f.value

instance (f : Field) : Decidable (FieldOk f) :=
  decidable_of_iff (f.name ≠ [] ∧ 58 ∉ f.name ∧ (f.name.all fun b => !isWs b) = true
      ∧ (f.before.all fun b => b = 32 ∨ b = 9) = true ∧ (f.behind.all fun b => b = 32 ∨ b = 9) = true
      ∧ OneLine f.value ∧ (f.value = [] ∨ Trimmed f.value))
    (by
      simp only [List.all_eq_true, Bool.not_eq_true', decide_eq_true_eq]
      exact ⟨fun ⟨h1, h2, h3, h4, h5, h6, h7⟩ => ⟨h1, h2, h3, h4, h5, h6, h7⟩,
        fun h => ⟨h.1, h.2, h.3, h.4, h.5, h.6, h.7⟩⟩)

/-- The first field with a folded name. -/
def first_field (n : Str) (fields : List Field) : Option Field :=
  fields.find? fun f => to_lowercase_str f.name = n

/-- The block is read to the end, and every name but `Cookie` has the value of its
    first line. -/
def ReadPerGrammar (fields : List Field) : Prop :=
  ∃ m, extract_headers_from_str ∅ (CRNL.intercalate (fields.map Field.line)) = .ok m
    ∧ ∀ n, n ≠ COOKIE_HEADER → m.m_headers.find n = (first_field n fields).map Field.value

/-- No value is empty, and a blank stands before the first value of every name but
    `Cookie`. -/
structure Spaced (fields : List Field) : Prop where
  values : ∀ f ∈ fields, f.value ≠ []
  blanks : ∀ n f, n ≠ COOKIE_HEADER → first_field n fields = some f → f.before ≠ []

/-! ## One line -/

theorem Field.line_ne (f : Field) : f.line ≠ [] := by
  simp [Field.line]

theorem isWs_of_blank {b : Byte} (h : b = 32 ∨ b = 9) : isWs b = true := by
  rcases h with rfl | rfl <;> rfl

namespace FieldOk

variable {f : Field} (h : FieldOk f)

include h

theorem trim_line (hv : f.value ≠ []) {cr : Str} (hcr : ∀ b ∈ cr, isWs b = true) :
    trim (f.line ++ cr) = f.name ++ 58 :: (f.before ++ f.value) := by
  have hassoc : f.line ++ cr
      = f.name ++ 58 :: (f.before ++ (f.value ++ (f.behind ++ cr))) := by
    simp [Field.line]
  rw [hassoc]
  refine trim_field ?_ ?_ (h.value.resolve_left hv).last hv
  · exact fun b hb => h.name_visible b (List.mem_of_mem_head? hb)
  · exact List.forall_mem_append.mpr ⟨fun b hb => isWs_of_blank (h.behind b hb), hcr⟩

/-- Nothing is left behind the colon. -/
theorem trim_line_empty (hv : f.value = []) {cr : Str} (hcr : ∀ b ∈ cr, isWs b = true) :
    trim (f.line ++ cr) = f.name ++ [58] := by
  have hassoc : f.line ++ cr = [] ++ ((f.name ++ [58]) ++ (f.before ++ (f.behind ++ cr))) := by
    simp [Field.line, hv]
  rw [hassoc]
  refine trim_sandwich (List.forall_mem_nil _) ?_ ?_ ?_ (by simp)
  · exact List.forall_mem_append.mpr ⟨fun b hb => isWs_of_blank (h.before b hb),
      List.forall_mem_append.mpr ⟨fun b hb => isWs_of_blank (h.behind b hb), hcr⟩⟩
  · intro b hb
    rw [List.head?_append_of_ne_nil _ h.name_ne] at hb
    exact h.name_visible b (List.mem_of_mem_head? hb)
  · intro b hb
    rw [List.getLast?_concat] at hb
    obtain rfl : 58 = b := by simpa using hb
    rfl

theorem one_line : OneLine f.line := by
  have hend : ∀ b : Byte, b ≠ 58 → isWs b = true → ¬ (b = 32 ∨ b = 9) → b ∉ f.value →
      b ∉ f.line := by
    intro b hcolon hws hblank hvalue
    have hname : b ∉ f.name := fun hb => by simp [h.name_visible b hb] at hws
    have hbefore : b ∉ f.before := fun hb => hblank (h.before b hb)
    have hbehind : b ∉ f.behind := fun hb => hblank (h.behind b hb)
    simp [Field.line, hname, hcolon, hbefore, hvalue, hbehind]
  exact ⟨hend 13 (by decide) rfl (by decide) h.value_line.1,
    hend 10 (by decide) rfl (by decide) h.value_line.2⟩

theorem not_lineOk (hv : f.value = []) {cr : Str} (hcr : ∀ b ∈ cr, isWs b = true) :
    ¬ LineOk (f.line ++ cr) := by
  rintro ⟨name, rest, htrim, hname, hrest⟩
  rw [h.trim_line_empty hv hcr] at htrim
  exact hrest (Search.first_split_unique h.colon hname htrim).2.symm

end FieldOk

/-- What the reader makes of a field with a value. -/
def Field.read (f : Field) : Str :=
  if f.before = [] then trim (f.value.drop 1) else f.value

theorem FieldOk.reads_as {f : Field} (h : FieldOk f) (hv : f.value ≠ []) :
    ReadsAs f.line (to_lowercase_str f.name, f.read) := by
  refine ⟨f.line_ne, h.one_line.2, fun cr hcr => ?_⟩
  have hline := h.trim_line hv hcr
  rw [Field.read]
  cases hb : f.before with
  | nil =>
      -- the byte that is skipped is the first of the value
      obtain ⟨b, rest, hrest⟩ := List.exists_cons_of_ne_nil hv
      rw [hb, List.nil_append, hrest] at hline
      rw [header_of_line_of_split hline h.colon, if_pos rfl, hrest]
      rfl
  | cons b ws =>
      have hvalue : Trimmed f.value := h.value.resolve_left hv
      have hws : ∀ c ∈ ws, isWs c = true := by
        intro c hc
        refine isWs_of_blank (h.before c ?_)
        rw [hb]
        exact List.mem_cons_of_mem _ hc
      have htrim : trim (ws ++ (f.value ++ [])) = f.value :=
        trim_sandwich hws (List.forall_mem_nil _) hvalue.first hvalue.last hv
      rw [List.append_nil] at htrim
      rw [hb, List.cons_append] at hline
      rw [header_of_line_of_split hline h.colon, htrim, if_neg (List.cons_ne_nil _ _)]

/-- A value without a blank before it is not read as it is. -/
theorem Field.read_eq_iff {f : Field} (hv : f.value ≠ []) : f.read = f.value ↔ f.before ≠ [] := by
  rw [Field.read]
  by_cases hb : f.before = []
  · rw [if_pos hb]
    refine ⟨fun heq => ?_, fun hne => absurd hb hne⟩
    have hlen := length_trim_le (f.value.drop 1)
    have hpos := List.length_pos_iff.mpr hv
    rw [heq, List.length_drop] at hlen
    omega
  · rw [if_neg hb]
    exact ⟨fun _ => hb, fun _ => rfl⟩

/-! ## A block -/

/-- A block with values is read to the end; its first lines are read as lines. -/
theorem extract_headers_fields {fields : List Field} (h : ∀ f ∈ fields, FieldOk f)
    (hv : ∀ f ∈ fields, f.value ≠ []) :
    ∃ m, extract_headers_from_str ∅ (CRNL.intercalate (fields.map Field.line)) = .ok m
      ∧ ∀ n, n ≠ COOKIE_HEADER → m.m_headers.find n = (first_field n fields).map Field.read := by
  by_cases hne : fields = []
  · subst hne
    exact ⟨∅, rfl, fun n _ => find_empty n⟩
  · obtain ⟨m, hm, hfind⟩ := extract_headers_block hne fun f hf => (h f hf).reads_as (hv f hf)
    refine ⟨m, hm, fun n hn => ?_⟩
    rw [hfind n hn, Search.findSome?_ite (fun f : Field => to_lowercase_str f.name = n)]
    rfl

/-- A block that is read to the end has no empty value. -/
theorem values_of_extract {fields : List Field} (h : ∀ f ∈ fields, FieldOk f) {m : HttpHeaders}
    (hm : extract_headers_from_str ∅ (CRNL.intercalate (fields.map Field.line)) = .ok m) :
    ∀ f ∈ fields, f.value ≠ [] := by
  intro f hf hv
  have hne : fields.map Field.line ≠ [] := by simpa using List.ne_nil_of_mem hf
  have hlines : getlines (CRNL.intercalate (fields.map Field.line))
      = with_cr (fields.map Field.line) := by
    refine getlines_intercalate hne (List.forall_mem_map.mpr fun g hg => ?_)
    exact ⟨g.line_ne, (h g hg).one_line.2⟩
  have hall := extract_headers_ok_iff.mp ⟨m, hm⟩
  rw [hlines] at hall
  rcases mem_with_cr_of_mem (List.mem_map_of_mem hf) with hmem | hmem
  · have hok := hall _ hmem
    rw [← List.append_nil f.line] at hok
    exact (h f hf).not_lineOk hv (List.forall_mem_nil _) hok
  · exact (h f hf).not_lineOk hv (List.forall_mem_singleton.mpr rfl) (hall _ hmem)

/-- **THE FIELD GRAMMAR**: a block is read per the grammar exactly when it is spaced. -/
theorem read_per_grammar_iff {fields : List Field} (h : ∀ f ∈ fields, FieldOk f) :
    ReadPerGrammar fields ↔ Spaced fields := by
  constructor
  · rintro ⟨m, hm, hfind⟩
    have hv := values_of_extract h hm
    obtain ⟨m', hm', hread⟩ := extract_headers_fields h hv
    obtain rfl : m = m' := Except.ok.inj (hm.symm.trans hm')
    refine ⟨hv, fun n f hn hf => ?_⟩
    have heq := (hread n hn).symm.trans (hfind n hn)
    rw [hf] at heq
    have hmem : f ∈ fields := List.mem_of_find?_eq_some hf
    exact (Field.read_eq_iff (hv f hmem)).mp (Option.some.inj heq)
  · intro hs
    obtain ⟨m, hm, hread⟩ := extract_headers_fields h hs.values
    refine ⟨m, hm, fun n hn => (hread n hn).trans ?_⟩
    refine Option.map_congr fun f hf => ?_
    have hmem : f ∈ fields := List.mem_of_find?_eq_some hf
    exact (Field.read_eq_iff (hs.values f hmem)).mpr (hs.blanks n f hn hf)

/-- Blanks of both kinds around the values, and a name that comes twice. -/
def spaced_fields : List Field :=
  [⟨str "Host", [32], str "a:80", []⟩, ⟨str "X-Tag", [9, 32], str "b", [32]⟩,
    ⟨str "host", [32], str "c", [9]⟩]

theorem spaced_fields_read : ReadPerGrammar spaced_fields ↔ Spaced spaced_fields :=
  read_per_grammar_iff (by decide)

/-- A field without a blank loses the first byte of its value. -/
theorem first_byte_dropped :
    FieldOk ⟨str "Host", [], str "abc", []⟩
      ∧ (∃ m, extract_headers_from_str ∅ (str "Host:abc") = .ok m
        ∧ m.m_headers.find (str "host") = some (str "bc"))
      ∧ ¬ ReadPerGrammar [⟨str "Host", [], str "abc", []⟩] := by
  have hread : extract_headers_from_str ∅ (str "Host:abc")
      = .ok ⟨(∅ : UnorderedMap Str Str).emplace (str "host") (str "bc"), ∅⟩ := by rfl
  refine ⟨by decide, ⟨_, hread, by decide⟩, ?_⟩
  rintro ⟨m, hm, hfind⟩
  obtain rfl := Except.ok.inj (hread.symm.trans hm)
  exact absurd (hfind (str "host") (by decide)) (by decide)

end WebLib.FieldGrammar
