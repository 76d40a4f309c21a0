import WebLib.ReadRequest

/-! # Well-formed requests and what the reader finds in them

    A request here is its text: a request line, header lines `name: value`,
    the terminator and a body of the declared length.  The conditions on the
    parts are fields, so every `Request` is well formed.  The results of this
    file compute, for the head of a request followed by ANY text, the two
    positions `read_request` searches for and the content length it parses. -/

namespace WebLib.RequestText

open WebLib ByteString Utils HttpHeaders ReadRequest

/-- A header line. -/
def header_line (h : Str × Str) : Str := h.1 ++ 58 :: 32 :: h.2

/-- The value the header block declares under a folded name: that of the
    first line with the name, without the white space around it. -/
def declared (n : Str) (headers : List (Str × Str)) : Option Str :=
  headers.findSome? fun h => if to_lowercase_str h.1 = n then some (trim h.2) else none

/-- A text of decimal digits that writes `n`. -/
def Writes (v : Str) (n : Nat) : Prop :=
  v ≠ [] ∧ (∀ b ∈ v, isdigit b = true) ∧ decimal v = n

/-- A header that is read back from its line: the name starts visibly and has no
    colon, the value has something visible, and neither has a line end. -/
structure HeaderOk (h : Str × Str) : Prop where
  colon : (58 : Byte) ∉ h.1
  name_head : ∀ b ∈ h.1.head?, isWs b = false
  name_line : (13 : Byte) ∉ h.1 ∧ (10 : Byte) ∉ h.1
  value_line : (13 : Byte) ∉ h.2 ∧ (10 : Byte) ∉ h.2
  visible : ∃ b ∈ h.2, isWs b = false

/-- A well-formed request. -/
structure Request where
  request_line : Str
  headers : List (Str × Str)
  body : Str
  line_ok : (13 : Byte) ∉ request_line ∧ (10 : Byte) ∉ request_line
  headers_ne : headers ≠ []
  names_ok : ∀ h ∈ headers, h.1 ≠ [] ∧ (58 : Byte) ∉ h.1 ∧ ∀ b ∈ h.1, isWs b = false
  values_ok : ∀ h ∈ headers, (13 : Byte) ∉ h.2 ∧ (10 : Byte) ∉ h.2 ∧ ∃ b ∈ h.2, isWs b = false
  length_ok : match declared (to_lowercase_str CONTENT_LENGTH) headers with
    | none => body = []
    | some v => Writes v body.length

/-- The header lines, separated by line ends. -/
def header_text (headers : List (Str × Str)) : Str := CRNL.intercalate (headers.map header_line)

/-- Request line and header lines, up to the terminator. -/
def Request.head (R : Request) : Str := R.request_line ++ (CRNL ++ header_text R.headers)

/-- The bytes of the request. -/
def Request.bytes (R : Request) : Str := R.head ++ (CRNLCRNL ++ R.body)

theorem Request.header_ok (R : Request) {h : Str × Str} (hm : h ∈ R.headers) : HeaderOk h := by
  obtain ⟨-, hc, hw⟩ := R.names_ok h hm
  obtain ⟨hcr, hlf, hv⟩ := R.values_ok h hm
  refine ⟨hc, fun b hb => hw b (List.mem_of_mem_head? hb), ⟨?_, ?_⟩, ⟨hcr, hlf⟩, hv⟩
  · exact fun hmem => absurd (hw 13 hmem) (by decide)
  · exact fun hmem => absurd (hw 10 hmem) (by decide)

/-! ## Where the head ends -/

/-- A line end that is not followed by another one is stepped over. -/
private theorem find_step_line_end {s : Str} (h : ∀ b ∈ s.head?, b ≠ 13) :
    Search.find CRNLCRNL (CRNL ++ s) = (Search.find CRNLCRNL s).map (· + 2) := by
  have hcons : ∀ (a : Byte) (t : Str), ¬ CRNLCRNL <+: a :: t →
      Search.find CRNLCRNL (a :: t) = (Search.find CRNLCRNL t).map (· + 1) := by
    intro a t hn
    rw [Search.find, if_neg hn]
  -- the terminator starts neither at this line end nor inside it
  have h1 : ¬ CRNLCRNL <+: CRNL ++ s := by
    intro hp
    have hs : [13, 10] <+: s := by simpa [CRNLCRNL, CRNL] using hp
    obtain ⟨t, rfl⟩ := hs
    exact h 13 rfl rfl
  have h2 : ¬ CRNLCRNL <+: 10 :: s := by simp [CRNLCRNL]
  rw [show CRNL ++ s = 13 :: 10 :: s from rfl] at h1 ⊢
  rw [hcons _ _ h1, hcons _ _ h2, Option.map_map]
  rfl

/-- Lines free of carriage returns, all but the first non-empty: the first
    blank line is the one after them. -/
theorem find_terminator_lines (tail : Str) :
    ∀ (ls : List Str) (l : Str), (∀ m ∈ l :: ls, (13 : Byte) ∉ m) → (∀ m ∈ ls, m ≠ []) →
      Search.find CRNLCRNL (CRNL.intercalate (l :: ls) ++ (CRNLCRNL ++ tail))
        = some (CRNL.intercalate (l :: ls)).length := by
  intro ls
  induction ls with
  | nil =>
      intro l hcr _
      have hl : (13 : Byte) ∉ l := hcr l List.mem_cons_self
      rw [List.intercalate_singleton, CRNLCRNL, Search.find_append_of_head_notMem _ hl,
        List.cons_append, Search.find, if_pos ⟨tail, rfl⟩]
      simp
  | cons m ls ih =>
      intro l hcr hne
      have hl : (13 : Byte) ∉ l := hcr l List.mem_cons_self
      have hm : (13 : Byte) ∉ m := hcr m (by simp)
      obtain ⟨b, m', rfl⟩ := List.exists_cons_of_ne_nil (hne m List.mem_cons_self)
      have hrest := ih (b :: m') (fun x hx => hcr x (List.mem_cons_of_mem _ hx))
        (fun x hx => hne x (List.mem_cons_of_mem _ hx))
      -- the next line starts with a byte of its own, so its line end is single
      have hhead : ∀ c ∈ (CRNL.intercalate ((b :: m') :: ls) ++ (CRNLCRNL ++ tail)).head?,
          c ≠ 13 := by
        intro c hc
        have hcb : c = b := by
          cases ls with
          | nil => simpa using hc.symm
          | cons x xs => simpa using hc.symm
        rw [hcb]
        rintro rfl
        exact hm List.mem_cons_self
      have hsplit : CRNL.intercalate (l :: (b :: m') :: ls)
          = l ++ (CRNL ++ CRNL.intercalate ((b :: m') :: ls)) := by
        rw [List.intercalate_cons_cons, List.append_assoc]
      rw [hsplit, List.append_assoc, List.append_assoc,
        show CRNLCRNL = 13 :: [10, 13, 10] from rfl,
        Search.find_append_of_head_notMem _ hl,
        show (13 : Byte) :: [10, 13, 10] = CRNLCRNL from rfl,
        find_step_line_end hhead, hrest]
      simp [CRNL]
      omega

private theorem header_line_ne_nil (h : Str × Str) : header_line h ≠ [] := by
  simp [header_line]

private theorem cr_notMem_header_line {h : Str × Str} (hok : HeaderOk h) :
    (13 : Byte) ∉ header_line h := by
  simp [header_line, hok.name_line.1, hok.value_line.1]

private theorem lf_notMem_header_line {h : Str × Str} (hok : HeaderOk h) :
    (10 : Byte) ∉ header_line h := by
  simp [header_line, hok.name_line.2, hok.value_line.2]

/-- A line and a block of lines end where the first blank line stands. -/
theorem find_terminator_block {line : Str} {lines : List Str} (hl : (13 : Byte) ∉ line)
    (hne : lines ≠ []) (hok : ∀ m ∈ lines, m ≠ [] ∧ (13 : Byte) ∉ m) (tail : Str) :
    Search.find CRNLCRNL ((line ++ (CRNL ++ CRNL.intercalate lines)) ++ (CRNLCRNL ++ tail))
      = some (line ++ (CRNL ++ CRNL.intercalate lines)).length := by
  rw [← List.append_assoc line, ← List.intercalate_cons_of_ne_nil hne]
  exact find_terminator_lines tail lines line
    (List.forall_mem_cons.mpr ⟨hl, fun m hm => (hok m hm).2⟩) fun m hm => (hok m hm).1

theorem header_lines_ok {headers : List (Str × Str)} (hok : ∀ h ∈ headers, HeaderOk h) :
    ∀ m ∈ headers.map header_line, m ≠ [] ∧ (13 : Byte) ∉ m :=
  List.forall_mem_map.mpr fun h hh => ⟨header_line_ne_nil h, cr_notMem_header_line (hok h hh)⟩

theorem find_terminator_of {line : Str} {headers : List (Str × Str)} (hl : (13 : Byte) ∉ line)
    (hne : headers ≠ []) (hok : ∀ h ∈ headers, HeaderOk h) (tail : Str) :
    Search.find CRNLCRNL ((line ++ (CRNL ++ header_text headers)) ++ (CRNLCRNL ++ tail))
      = some (line ++ (CRNL ++ header_text headers)).length :=
  find_terminator_block hl (by simpa using hne) (header_lines_ok hok) tail

/-- The first line end is that of the first line. -/
theorem find_line_end_of {line : Str} (hl : (13 : Byte) ∉ line) (tail : Str) :
    Search.find CRNL (line ++ (CRNL ++ tail)) = some line.length := by
  rw [show CRNL = 13 :: [10] from rfl, Search.find_append_of_head_notMem _ hl,
    List.cons_append, List.cons_append, Search.find, if_pos ⟨_, rfl⟩]
  simp

/-- **THE HEAD ENDS** where the first blank line stands, whatever follows. -/
theorem find_terminator (R : Request) (tail : Str) :
    Search.find CRNLCRNL (R.head ++ (CRNLCRNL ++ tail)) = some R.head.length :=
  find_terminator_of R.line_ok.1 R.headers_ne (fun _ hh => R.header_ok hh) tail

/-- The request line ends at the first line end. -/
theorem find_line_end (R : Request) (tail : Str) :
    Search.find CRNL (R.head ++ tail) = some R.request_line.length := by
  rw [Request.head, List.append_assoc, List.append_assoc]
  exact find_line_end_of R.line_ok.1 _

/-! ## What the header block says -/

/-- A name, a colon and a visible text: the white space behind it is trimmed away. -/
theorem trim_field {name before core behind : Str} (hname : ∀ b ∈ name.head?, isWs b = false)
    (hbehind : ∀ b ∈ behind, isWs b = true) (hlast : ∀ b ∈ core.getLast?, isWs b = false)
    (hne : core ≠ []) :
    trim (name ++ 58 :: (before ++ (core ++ behind))) = name ++ 58 :: (before ++ core) := by
  have hassoc : name ++ 58 :: (before ++ (core ++ behind))
      = [] ++ ((name ++ 58 :: (before ++ core)) ++ behind) := by simp
  rw [hassoc]
  refine trim_sandwich (List.forall_mem_nil _) hbehind ?_ ?_ (by simp)
  · intro b hb
    cases name with
    | nil =>
        obtain rfl : 58 = b := Option.some.inj hb
        rfl
    | cons x name => exact hname b hb
  · intro b hb
    rw [show name ++ 58 :: (before ++ core) = (name ++ 58 :: before) ++ core by simp,
      List.getLast?_append_of_ne_nil _ hne] at hb
    exact hlast b hb

/-- **ONE HEADER LINE**, with or without a carriage return behind it, reads as
    its folded name and its value without the white space around it. -/
theorem header_of_line_of_ok {h : Str × Str} (cr : Str) (hok : HeaderOk h)
    (hcr : ∀ b ∈ cr, isWs b = true) :
    header_of_line (header_line h ++ cr) = .ok (to_lowercase_str h.1, trim h.2) := by
  obtain ⟨ws, core, ws', hv, hws, hws', hfirst, hlast, hne⟩ := exists_core hok.visible
  have hcore : trim h.2 = core := by
    rw [hv]
    exact trim_sandwich hws hws' hfirst hlast hne
  have hline : trim (header_line h ++ cr) = h.1 ++ 58 :: 32 :: (ws ++ core) := by
    -- a carriage return joins the white space after the core
    have hre : header_line h ++ cr
        = h.1 ++ 58 :: ((32 :: ws) ++ (core ++ (ws' ++ cr))) := by
      simp [header_line, hv]
    rw [hre]
    exact trim_field hok.name_head
      (List.forall_mem_append.mpr ⟨hws', hcr⟩) hlast hne
  have hwc : trim (ws ++ (core ++ [])) = core :=
    trim_sandwich hws (List.forall_mem_nil _) hfirst hlast hne
  rw [List.append_nil] at hwc
  rw [header_of_line_of_split hline hok.colon, hwc, hcore]

/-- The lines `getline` sees: all but the last keep a carriage return. -/
def with_cr : List Str → List Str
  | [] => []
  | [l] => [l]
  | l :: m :: ls => (l ++ [13]) :: with_cr (m :: ls)

private theorem intercalate_with_cr :
    ∀ ls : List Str, CRNL.intercalate ls = [10].intercalate (with_cr ls)
  | [] => rfl
  | [l] => by simp [with_cr]
  | [l, m] => by simp [with_cr, CRNL, List.intercalate]
  | l :: m :: n :: ls => by
      have ih := intercalate_with_cr (m :: n :: ls)
      rw [with_cr, List.intercalate_cons_cons, ih]
      simp [with_cr, CRNL, List.intercalate_cons_cons]

private theorem mem_with_cr {m : Str} :
    ∀ {ls : List Str}, m ∈ with_cr ls → ∃ l ∈ ls, m = l ∨ m = l ++ [13]
  | [], h => absurd h List.not_mem_nil
  | [l], h => ⟨l, List.mem_cons_self, Or.inl (by simpa [with_cr] using h)⟩
  | l :: n :: ls, h => by
      rw [with_cr] at h
      rcases List.mem_cons.mp h with rfl | h
      · exact ⟨l, List.mem_cons_self, Or.inr rfl⟩
      · obtain ⟨x, hx, hm⟩ := mem_with_cr h
        exact ⟨x, List.mem_cons_of_mem _ hx, hm⟩

theorem mem_with_cr_of_mem {l : Str} :
    ∀ {ls : List Str}, l ∈ ls → l ∈ with_cr ls ∨ l ++ [13] ∈ with_cr ls
  | [m], h => Or.inl (by simpa [with_cr] using h)
  | m :: n :: ls, h => by
      rw [with_cr]
      rcases List.mem_cons.mp h with rfl | h
      · exact Or.inr List.mem_cons_self
      · exact (mem_with_cr_of_mem h).imp (List.mem_cons_of_mem _) (List.mem_cons_of_mem _)

private theorem with_cr_ne_nil {ls : List Str} (h : ls ≠ []) : with_cr ls ≠ [] := by
  match ls, h with
  | [l], _ => simp [with_cr]
  | l :: m :: ls, _ => simp [with_cr]

/-- Non-empty lines without line feeds are the lines that are read. -/
theorem getlines_intercalate {lines : List Str} (hne : lines ≠ [])
    (hok : ∀ l ∈ lines, l ≠ [] ∧ (10 : Byte) ∉ l) :
    getlines (CRNL.intercalate lines) = with_cr lines := by
  have hlf : ∀ l ∈ with_cr lines, (10 : Byte) ∉ l := by
    intro l hl
    obtain ⟨x, hx, hlx⟩ := mem_with_cr hl
    have := (hok x hx).2
    rcases hlx with rfl | rfl
    · exact this
    · simp [this]
  have hsplit : (CRNL.intercalate lines).splitOn 10 = with_cr lines := by
    rw [intercalate_with_cr]
    exact List.splitOn_intercalate 10 hlf (with_cr_ne_nil hne)
  rw [getlines, hsplit]
  -- no line is empty, so `getline` sees all of them
  refine if_neg ?_
  intro hlast
  obtain ⟨x, hx, hm⟩ := mem_with_cr (List.mem_of_getLast? hlast)
  rcases hm with hm | hm
  · exact (hok x hx).1 hm.symm
  · simp at hm

private theorem first_value_cons {n line : Str} {hd : Str × Str} (lines : List Str)
    (h : header_of_line line = .ok hd) :
    first_value n (line :: lines)
      = (if hd.1 = n then some hd.2 else none).or (first_value n lines) := by
  simp only [first_value]
  rw [List.findSome?_cons, h]
  by_cases hc : hd.1 = n <;> simp [hc]

/-- A line that is written for an item and read as `reads` of it, with or without a
    carriage return behind it. -/
structure ReadsAs (line : Str) (h : Str × Str) : Prop where
  ne : line ≠ []
  line_feed : (10 : Byte) ∉ line
  read : ∀ cr : Str, (∀ b ∈ cr, isWs b = true) → header_of_line (line ++ cr) = .ok h

theorem ReadsAs.bare {line : Str} {h : Str × Str} (hr : ReadsAs line h) :
    header_of_line line = .ok h := by
  have hread := hr.read [] (List.forall_mem_nil _)
  rwa [List.append_nil] at hread

theorem ReadsAs.return {line : Str} {h : Str × Str} (hr : ReadsAs line h) :
    header_of_line (line ++ [13]) = .ok h := hr.read [13] (List.forall_mem_singleton.mpr rfl)

section Block

variable {α : Type*} {line : α → Str} {reads : α → Str × Str}

/-- Every line of the block reads as the item it was written for. -/
theorem header_of_line_with_cr {items : List α} (hok : ∀ a ∈ items, ReadsAs (line a) (reads a))
    {l : Str} (hl : l ∈ with_cr (items.map line)) : ∃ h, header_of_line l = .ok h := by
  obtain ⟨x, hx, hline⟩ := mem_with_cr hl
  obtain ⟨a, ha, rfl⟩ := List.mem_map.mp hx
  rcases hline with rfl | rfl
  · exact ⟨_, (hok a ha).bare⟩
  · exact ⟨_, (hok a ha).return⟩

theorem first_value_with_cr (n : Str) :
    ∀ items : List α, (∀ a ∈ items, ReadsAs (line a) (reads a)) →
      first_value n (with_cr (items.map line))
        = items.findSome? fun a => if (reads a).1 = n then some (reads a).2 else none
  | [], _ => rfl
  | [a], hok => by
      have ha := (hok a List.mem_cons_self).bare
      simp [first_value, with_cr, ha]
  | a :: b :: items, hok => by
      have ha := (hok a List.mem_cons_self).return
      have ih := first_value_with_cr n (b :: items) fun x hx => hok x (List.mem_cons_of_mem _ hx)
      rw [List.map_cons, List.map_cons, with_cr, first_value_cons _ ha, ← List.map_cons, ih]
      conv_rhs => rw [List.findSome?_cons]
      by_cases hc : (reads a).1 = n
      · simp [hc]
      · rw [if_neg hc, Option.none_or]

/-- **THE BLOCK IS READ**: its lines are parsed to the end, and under every folded
    name but the cookie's stands the value of the first line that reads so. -/
theorem extract_headers_block {items : List α} (hne : items ≠ [])
    (hok : ∀ a ∈ items, ReadsAs (line a) (reads a)) :
    ∃ m, extract_headers_from_str ∅ (CRNL.intercalate (items.map line)) = .ok m
      ∧ ∀ n, n ≠ COOKIE_HEADER → m.m_headers.find n
        = items.findSome? fun a => if (reads a).1 = n then some (reads a).2 else none := by
  have hlines : getlines (CRNL.intercalate (items.map line)) = with_cr (items.map line) := by
    refine getlines_intercalate (by simpa using hne) (List.forall_mem_map.mpr fun a ha => ?_)
    exact ⟨(hok a ha).ne, (hok a ha).line_feed⟩
  obtain ⟨m, hm⟩ : ∃ m, extract_headers_from_str ∅ (CRNL.intercalate (items.map line)) = .ok m := by
    rw [extract_headers_ok_iff, hlines]
    intro l hl
    exact header_of_line_ok_iff.mp (header_of_line_with_cr hok hl)
  refine ⟨m, hm, fun n hn => ?_⟩
  rw [extract_headers_find hn hm, hlines, first_value_with_cr n items hok]

end Block

/-- A header line is read as its folded name and its value without the white space
    around it. -/
theorem HeaderOk.reads_as {h : Str × Str} (hok : HeaderOk h) :
    ReadsAs (header_line h) (to_lowercase_str h.1, trim h.2) :=
  ⟨header_line_ne_nil h, lf_notMem_header_line hok, fun cr hcr => header_of_line_of_ok cr hok hcr⟩

/-- The lines of header text declare what `declared` says. -/
theorem first_value_header_text {headers : List (Str × Str)} (hne : headers ≠ [])
    (hok : ∀ h ∈ headers, HeaderOk h) (n : Str) :
    first_value n (getlines (header_text headers)) = declared n headers := by
  have hlines : getlines (header_text headers) = with_cr (headers.map header_line) := by
    refine getlines_intercalate (by simpa using hne) (List.forall_mem_map.mpr fun h hh => ?_)
    exact ⟨header_line_ne_nil h, lf_notMem_header_line (hok h hh)⟩
  rw [hlines]
  exact first_value_with_cr n headers fun h hh => (hok h hh).reads_as

/-- Header lines are such a block. -/
theorem extract_headers_header_text {headers : List (Str × Str)} (hne : headers ≠ [])
    (hok : ∀ h ∈ headers, HeaderOk h) :
    ∃ m, extract_headers_from_str ∅ (header_text headers) = .ok m
      ∧ ∀ n, n ≠ COOKIE_HEADER → m.m_headers.find n = declared n headers := by
  exact extract_headers_block hne fun h hh => (hok h hh).reads_as

/-! ## The content length -/

theorem isdigit_visible {b : Byte} (h : isdigit b = true) :
    isWs b = false ∧ b ≠ 45 ∧ b ≠ 43 := by
  simp only [isdigit, Bool.and_eq_true, decide_eq_true_eq, UInt8.le_iff_toNat_le] at h
  have h48 : 48 ≤ b.toNat := by simpa using h.1
  refine ⟨?_, ?_, ?_⟩
  · simp only [isWs, isspace, Bool.or_eq_false_iff, Bool.and_eq_false_iff,
      beq_eq_false_iff_ne, decide_eq_false_iff_not]
    omega
  · rintro rfl
    exact absurd h48 (by decide)
  · rintro rfl
    exact absurd h48 (by decide)

/-- `strtol` on decimal digits takes all of them. -/
theorem strtol_of_writes {v : Str} {n : Nat} (h : Writes v n) :
    (strtol_parts v).2 ≠ [] ∧ strtol_value v = n := by
  obtain ⟨hne, hd, rfl⟩ := h
  obtain ⟨b, t, rfl⟩ := List.exists_cons_of_ne_nil hne
  obtain ⟨hb, h45, h43⟩ := isdigit_visible (hd b List.mem_cons_self)
  have hparts : strtol_parts (b :: t) = (false, b :: t) := by
    rw [strtol_parts, List.dropWhile_cons_of_neg (by simp [hb])]
    have htake : (b :: t).takeWhile isdigit = b :: t :=
      List.takeWhile_eq_self_iff.mpr hd
    split
    · rename_i heq
      exact absurd (List.cons.inj heq).1 h45
    · rename_i heq
      exact absurd (List.cons.inj heq).1 h43
    · rw [htake]
  refine ⟨by rw [hparts]; exact List.cons_ne_nil _ _, ?_⟩
  rw [strtol_value, hparts]
  rfl

/-- `stoi` on decimal digits: their number, when it fits an `int`. -/
theorem stoi_of_writes {v : Str} {n : Nat} (h : Writes v n) :
    stoi v = if (n : Int) ≤ INT_MAX then .ok (n : Int) else .error .out_of_range := by
  obtain ⟨hne, hvalue⟩ := strtol_of_writes h
  rw [stoi, hvalue, if_neg hne]
  by_cases hfit : (n : Int) ≤ INT_MAX
  · rw [if_pos hfit, if_neg]
    rw [INT_MIN]
    omega
  · rw [if_neg hfit, if_pos (by omega)]

/-- **THE PARSED LENGTH** of a request's head is the length of its body, and
    nothing is parsed when that length does not fit an `int`. -/
theorem parse_content_length_head (R : Request) (tail : Str) :
    parse_content_length (R.head ++ (CRNLCRNL ++ tail)) R.head.length
      = if (R.body.length : Int) ≤ INT_MAX then .ok (R.body.length : Int)
        else .error (.throws .out_of_range) := by
  have hlen : R.head.length
      = R.request_line.length + (2 + (header_text R.headers).length) := by
    simp only [Request.head, CRNL, List.length_append, List.length_cons, List.length_nil]
  -- the block that is parsed is the header text, without the terminator
  have hsub : substr (R.head ++ (CRNLCRNL ++ tail)) (R.request_line.length + CRNL.length)
      (headers_len R.head.length R.request_line.length) = .ok (header_text R.headers) := by
    have hdrop : (R.head ++ (CRNLCRNL ++ tail)).drop (R.request_line.length + CRNL.length)
        = header_text R.headers ++ (CRNLCRNL ++ tail) := by
      rw [Request.head]
      rw [← List.drop_drop, List.append_assoc, List.drop_left, List.append_assoc, List.drop_left]
    have hcount : headers_len R.head.length R.request_line.length
        = (header_text R.headers).length := by
      rw [headers_len]
      have hcr : CRNL.length = 2 := rfl
      rw [size_sub_of_le (by omega), hlen]
      omega
    rw [substr_of_le _ (by rw [List.length_append, hlen]; simp [CRNL]; omega), hdrop, hcount,
      List.take_left]
  obtain ⟨m, hm, hfind⟩ := extract_headers_header_text R.headers_ne fun _ hh => R.header_ok hh
  have hget : get_header m CONTENT_LENGTH
      = declared (to_lowercase_str CONTENT_LENGTH) R.headers := hfind _ (by decide)
  rw [parse_content_length]
  simp only [find_line_end, hsub, hm, hget]
  have hlength := R.length_ok
  cases hdec : declared (to_lowercase_str CONTENT_LENGTH) R.headers with
  | none =>
      rw [hdec] at hlength
      have hbody : R.body = [] := hlength
      have hz : stoi (str "0") = .ok 0 := by decide
      simp [hz, hbody, INT_MAX]
  | some v =>
      rw [hdec] at hlength
      simp only [Option.getD_some]
      rw [stoi_of_writes hlength]
      by_cases hfit : (R.body.length : Int) ≤ INT_MAX
      · rw [if_pos hfit, if_pos hfit]
      · rw [if_neg hfit, if_neg hfit]

end WebLib.RequestText
