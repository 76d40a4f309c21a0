import WebLib.Decoding

/-! # Cookies of a request

    A request may name cookies in its header block, `n1=v1; n2=v2; ...`.
    `parse_cookie` takes such a text apart: `find_parse_cookie` says that it
    finds each cookie under its folded name.  The branch for the cookie line
    does not call it, so no request has a cookie. -/

namespace WebLib.RequestCookies

open WebLib ByteString Utils UnorderedMap HttpHeaders ReadRequest RequestText HttpRequest

/-- A text that is a cookie's name or value. -/
structure Token (s : Str) : Prop where
  ne : s ≠ []
  visible : ∀ b ∈ s, isWs b = false
  equals : 61 ∉ s
  semicolon : 59 ∉ s

instance (s : Str) : Decidable (Token s) :=
  decidable_of_iff (s ≠ [] ∧ (s.all fun b => !isWs b) = true ∧ 61 ∉ s ∧ 59 ∉ s)
    ⟨fun h => ⟨h.1, visible_of_all h.2.1, h.2.2.1, h.2.2.2⟩,
      fun h => ⟨h.ne, List.all_eq_true.mpr fun b hb => by simpa using h.visible b hb,
        h.equals, h.semicolon⟩⟩

/-- A name and a value. -/
structure CookieOk (c : Str × Str) : Prop where
  name : Token c.1
  value : Token c.2

def cookie_pair (c : Str × Str) : Str := c.1 ++ 61 :: c.2

/-- `n1=v1; n2=v2; ...`. -/
def cookie_text (cookies : List (Str × Str)) : Str :=
  (str "; ").intercalate (cookies.map cookie_pair)

/-! ## What `parse_cookie` would do -/

theorem intercalate_blank (p : Str) (ps : List Str) :
    (str "; ").intercalate (p :: ps) = [59].intercalate (p :: ps.map (32 :: ·)) := by
  induction ps generalizing p with
  | nil => rfl
  | cons q ps ih =>
      have hblank : [59].intercalate ((32 :: q) :: ps.map (32 :: ·))
          = 32 :: [59].intercalate (q :: ps.map (32 :: ·)) := by
        cases ps with
        | nil => rfl
        | cons r ps =>
            rw [List.map_cons, List.intercalate_cons_cons, List.intercalate_cons_cons]
            rfl
      rw [List.intercalate_cons_cons, ih q, List.map_cons, List.intercalate_cons_cons, hblank]
      simp [str]

/-- The first split and the trims give the pieces back. -/
theorem pieces_intercalate {pieces : List Str}
    (h : ∀ piece ∈ pieces, Decoding.Trimmed piece ∧ 59 ∉ piece) :
    (views_split 59 ((str "; ").intercalate pieces)).map trim = pieces := by
  cases pieces with
  | nil => rfl
  | cons first pieces =>
      obtain ⟨hfirst, hrest⟩ := List.forall_mem_cons.mp h
      rw [intercalate_blank, views_split_intercalate, List.map_cons, List.map_map, hfirst.1.trim_eq]
      · congr 1
        conv_rhs => rw [← List.map_id pieces]
        refine List.map_congr_left fun piece hp => ?_
        have hblank : trim ([32] ++ (piece ++ [])) = piece :=
          trim_sandwich (List.forall_mem_singleton.mpr rfl) (List.forall_mem_nil _)
            (hrest piece hp).1.first (hrest piece hp).1.last (hrest piece hp).1.ne
        rwa [List.append_nil] at hblank
      · refine List.forall_mem_cons.mpr ⟨⟨hfirst.2, hfirst.1.ne⟩, ?_⟩
        intro piece hpiece
        obtain ⟨p, hp, rfl⟩ := List.mem_map.mp hpiece
        exact ⟨by simp [(hrest p hp).2], List.cons_ne_nil _ _⟩

theorem CookieOk.visible {c : Str × Str} (h : CookieOk c) : ∀ b ∈ cookie_pair c, isWs b = false := by
  intro b hb
  rcases List.mem_append.mp hb with hb | hb
  · exact h.name.visible b hb
  · rcases List.mem_cons.mp hb with rfl | hb
    · rfl
    · exact h.value.visible b hb

theorem cookie_pair_ne_nil (c : Str × Str) : cookie_pair c ≠ [] := by simp [cookie_pair]

/-- A pair is one piece of the text. -/
theorem cookie_pair_piece {c : Str × Str} (hname : Token c.1) (hvalue : Decoding.Trimmed c.2)
    (hsemicolon : 59 ∉ c.2) : Decoding.Trimmed (cookie_pair c) ∧ 59 ∉ cookie_pair c := by
  refine ⟨⟨cookie_pair_ne_nil c, ?_, ?_⟩, by simp [cookie_pair, hname.semicolon, hsemicolon]⟩
  · intro b hb
    rw [cookie_pair, List.head?_append_of_ne_nil _ hname.ne] at hb
    exact hname.visible b (List.mem_of_mem_head? hb)
  · intro b hb
    rw [cookie_pair, show c.1 ++ 61 :: c.2 = (c.1 ++ [61]) ++ c.2 by simp,
      List.getLast?_append_of_ne_nil _ hvalue.ne] at hb
    exact hvalue.last b hb

theorem CookieOk.piece {c : Str × Str} (h : CookieOk c) :
    Decoding.Trimmed (cookie_pair c) ∧ 59 ∉ cookie_pair c :=
  cookie_pair_piece h.name (.of_visible h.value.ne h.value.visible) h.value.semicolon

/-- The second split puts a pair into the map when its value has no equals sign, -/
theorem insert_cookie_pair {c : Str × Str} (hname : 61 ∉ c.1) (hvalue : 61 ∉ c.2) (m : HttpHeaders) :
    insert_cookie m (cookie_pair c)
      = { m with m_cookies := m.m_cookies.emplace (to_lowercase_str c.1) (Cookie.new c.1 c.2) } := by
  rw [insert_cookie, cookie_pair, views_split_pair hname hvalue]

/-- and skips it when it has one. -/
theorem insert_cookie_skip {c : Str × Str} (hvalue : 61 ∈ c.2) (m : HttpHeaders) :
    insert_cookie m (cookie_pair c) = m := by
  have hlen : (views_split 61 (cookie_pair c)).length ≠ 2 := by
    have hpos := List.count_pos_iff.mpr hvalue
    rw [length_views_split (cookie_pair_ne_nil c), cookie_pair, List.count_append,
      List.count_cons_self]
    omega
  rw [insert_cookie]
  split
  · next hsplit =>
      rw [hsplit] at hlen
      exact absurd rfl hlen
  · rfl

/-- The first cookie with a folded name. -/
def first_cookie (k : Str) (cookies : List (Str × Str)) : Option Cookie :=
  (cookies.find? fun c => to_lowercase_str c.1 = k).map fun c => Cookie.new c.1 c.2

theorem first_cookie_cons (k : Str) (c : Str × Str) (cookies : List (Str × Str)) :
    first_cookie k (c :: cookies)
      = if to_lowercase_str c.1 = k then some (Cookie.new c.1 c.2) else first_cookie k cookies := by
  by_cases hk : to_lowercase_str c.1 = k
  · rw [if_pos hk, first_cookie, List.find?_cons_of_pos (by simpa using hk)]
    rfl
  · rw [if_neg hk, first_cookie, List.find?_cons_of_neg (by simpa using hk)]
    rfl

/-- **PAIRS ARE ENTERED IN ORDER**: what is in the map stays, and a folded name has
    its first pair without a second equals sign. -/
theorem find_insert_cookies {cookies : List (Str × Str)} (h : ∀ c ∈ cookies, 61 ∉ c.1)
    (m : HttpHeaders) (k : Str) :
    ((cookies.map cookie_pair).foldl insert_cookie m).m_cookies.find k
      = (m.m_cookies.find k).or (first_cookie k (cookies.filter fun c => 61 ∉ c.2)) := by
  induction cookies generalizing m with
  | nil => simp [first_cookie]
  | cons c cookies ih =>
      obtain ⟨hc, hrest⟩ := List.forall_mem_cons.mp h
      rw [List.map_cons, List.foldl_cons, ih hrest]
      by_cases hv : 61 ∈ c.2
      · rw [insert_cookie_skip hv, List.filter_cons_of_neg (by simpa using hv)]
      · rw [insert_cookie_pair hc hv, List.filter_cons_of_pos (by simpa using hv), find_emplace,
          first_cookie_cons]
        by_cases hk : to_lowercase_str c.1 = k
        · rw [if_pos hk.symm, if_pos hk, hk]
          cases m.m_cookies.find k <;> rfl
        · rw [if_neg (Ne.symm hk), if_neg hk]

/-- **A COOKIE STRING IS READ**: what is in the map stays, and a folded name has
    its first cookie. -/
theorem find_parse_cookie {cookies : List (Str × Str)} (h : ∀ c ∈ cookies, CookieOk c)
    (m : HttpHeaders) (k : Str) :
    (parse_cookie m (cookie_text cookies)).m_cookies.find k
      = (m.m_cookies.find k).or (first_cookie k cookies) := by
  have hall : cookies.filter (fun c => 61 ∉ c.2) = cookies :=
    List.filter_eq_self.mpr fun c hc => decide_eq_true (h c hc).value.equals
  rw [parse_cookie, cookie_text,
    pieces_intercalate (List.forall_mem_map.mpr fun c hc => (h c hc).piece),
    find_insert_cookies (fun c hc => (h c hc).name.equals), hall]

/-! ## What a request has -/

/-- Every cookie is found by its name, in any letter case, and there are no
    others. -/
structure CookiesReach (req : HttpRequest) (cookies : List (Str × Str)) : Prop where
  found : ∀ c ∈ cookies, ∀ n, to_lowercase_str n = to_lowercase_str c.1 →
    ∃ cookie, req.get_cookie n = some cookie ∧ cookie.m_name = c.1 ∧ cookie.m_value = c.2
  only : ∀ k ∈ req.get_cookies, ∃ c ∈ cookies, to_lowercase_str c.1 = k

theorem first_cookie_of_mem {cookies : List (Str × Str)}
    (hd : (cookies.map fun c => to_lowercase_str c.1).Nodup) {c : Str × Str} (hc : c ∈ cookies) :
    first_cookie (to_lowercase_str c.1) cookies = some (Cookie.new c.1 c.2) := by
  have hfind : cookies.find? (fun d => to_lowercase_str d.1 = to_lowercase_str c.1) = some c :=
    Search.find?_of_nodup_map hd hc
  rw [first_cookie, hfind]
  rfl

/-- **THE CALL THAT IS MISSING**: on a request without cookies, `parse_cookie`
    with the text of the cookie line gives it exactly the cookies of the line. -/
theorem parse_cookie_reaches {cookies : List (Str × Str)} (h : ∀ c ∈ cookies, CookieOk c)
    (hd : (cookies.map fun c => to_lowercase_str c.1).Nodup) {req : HttpRequest}
    (hnone : req.get_cookies = ∅) :
    CookiesReach { req with m_headers := parse_cookie req.m_headers (cookie_text cookies) }
      cookies := by
  have hfind : ∀ k, (parse_cookie req.m_headers (cookie_text cookies)).m_cookies.find k
      = first_cookie k cookies := by
    intro k
    have hempty : req.m_headers.m_cookies = ∅ := hnone
    rw [find_parse_cookie h, hempty, find_empty, Option.none_or]
  constructor
  · intro c hc n hn
    refine ⟨Cookie.new c.1 c.2, ?_, rfl, rfl⟩
    show (parse_cookie req.m_headers (cookie_text cookies)).m_cookies.find (to_lowercase_str n) = _
    rw [hfind, hn, first_cookie_of_mem hd hc]
  · intro k hk
    obtain ⟨v, hv⟩ := mem_iff_find.mp hk
    have hfirst : first_cookie k cookies = some v := (hfind k).symm.trans hv
    obtain ⟨c, hc, -⟩ := Option.map_eq_some_iff.mp hfirst
    exact ⟨c, List.mem_of_find?_eq_some hc, by simpa using List.find?_some hc⟩

/-- **NO REQUEST HAS A COOKIE**, whatever text it was built from. -/
theorem get_cookies_construct {raw_http path : Str} {pnames : List Str} {req : HttpRequest}
    (h : construct raw_http path pnames = .ok req) : req.get_cookies = ∅ := by
  obtain ⟨hs, -⟩ := construct_eq_ok_iff.mp h
  rw [extract_headers] at hs
  cases hsub : substr raw_http (find_end CRNL raw_http)
      (size_sub (find_pos CRNLCRNL raw_http) (find_end CRNL raw_http)) with
  | error f => rw [hsub] at hs; cases hs
  | ok headers_section =>
      rw [hsub] at hs
      exact (extract_headers_m_cookies hs).trans m_cookies_empty

theorem get_cookie_construct {raw_http path : Str} {pnames : List Str} {req : HttpRequest}
    (h : construct raw_http path pnames = .ok req) (n : Str) : req.get_cookie n = none := by
  have hempty : req.m_headers.m_cookies = ∅ := get_cookies_construct h
  rw [HttpRequest.get_cookie, HttpHeaders.get_cookie, hempty, find_empty]

/-! ## Requests with a cookie line -/

/-- A request whose header block has a cookie line among other lines. -/
structure CookieRequest where
  first_line : Str
  before : List (Str × Str)
  name : Str
  cookies : List (Str × Str)
  behind : List (Str × Str)
  body : Str
  line_ok : (13 : Byte) ∉ first_line
  before_ok : ∀ h ∈ before, HeaderOk h
  name_ok : to_lowercase_str name = COOKIE_HEADER
  cookies_ne : cookies ≠ []
  cookies_ok : ∀ c ∈ cookies, CookieOk c
  distinct : (cookies.map fun c => to_lowercase_str c.1).Nodup
  behind_ok : ∀ h ∈ behind, HeaderOk h

namespace CookieRequest

variable (R : CookieRequest)

def headers : List (Str × Str) := R.before ++ (R.name, cookie_text R.cookies) :: R.behind

def bytes : Str := (R.first_line ++ (CRNL ++ header_text R.headers)) ++ (CRNLCRNL ++ R.body)

theorem name_visible {b : Byte} (hb : b ∈ R.name) : isWs b = false ∧ b ≠ 58 := by
  have hfold : tolower b ∈ COOKIE_HEADER := by
    rw [← R.name_ok]
    exact List.mem_map_of_mem hb
  have hletters : ∀ c ∈ COOKIE_HEADER, isWs c = false ∧ c ≠ 58 := by
    have hall : (COOKIE_HEADER.all fun c => !isWs c && c != 58) = true := by decide
    intro c hc
    simpa using List.all_eq_true.mp hall c hc
  constructor
  · by_contra hws
    have hws : isWs b = true := by simpa using hws
    rw [tolower_of_isWs hws] at hfold
    exact absurd ((hletters b hfold).1.symm.trans hws) Bool.false_ne_true
  · rintro rfl
    exact (hletters _ hfold).2 rfl

theorem line_end_notMem {b : Byte} (hb : isWs b = true) (h59 : b ≠ 59) (h32 : b ≠ 32) :
    b ∉ cookie_text R.cookies := by
  obtain ⟨c, cookies, hcons⟩ := List.exists_cons_of_ne_nil R.cookies_ne
  have hpair : ∀ d ∈ R.cookies, b ∉ cookie_pair d := by
    intro d hd hmem
    exact absurd (((R.cookies_ok d hd).visible b hmem).symm.trans hb) Bool.false_ne_true
  rw [hcons] at hpair
  rw [hcons, cookie_text, List.map_cons, intercalate_blank]
  refine notMem_intercalate h59 (List.forall_mem_cons.mpr ⟨hpair c List.mem_cons_self, ?_⟩)
  intro piece hpiece
  obtain ⟨p, hp, rfl⟩ := List.mem_map.mp hpiece
  obtain ⟨d, hd, rfl⟩ := List.mem_map.mp hp
  exact List.not_mem_cons_of_ne_of_not_mem h32 (hpair d (List.mem_cons_of_mem _ hd))

/-- The cookie line is a header line like the others. -/
theorem cookie_header_ok : HeaderOk (R.name, cookie_text R.cookies) := by
  have hline : ∀ b : Byte, isWs b = true → b ∉ R.name := by
    intro b hb hmem
    exact absurd ((R.name_visible hmem).1.symm.trans hb) Bool.false_ne_true
  obtain ⟨c, cookies, hcons⟩ := List.exists_cons_of_ne_nil R.cookies_ne
  have hc : CookieOk c := R.cookies_ok c (by rw [hcons]; exact List.mem_cons_self)
  obtain ⟨b, hb⟩ := List.exists_mem_of_ne_nil _ (cookie_pair_ne_nil c)
  refine ⟨?_, ?_, ⟨hline 13 rfl, hline 10 rfl⟩, ⟨?_, ?_⟩, b, ?_, hc.visible b hb⟩
  · exact fun hmem => (R.name_visible hmem).2 rfl
  · exact fun b hb => (R.name_visible (List.mem_of_mem_head? hb)).1
  · exact R.line_end_notMem rfl (by decide) (by decide)
  · exact R.line_end_notMem rfl (by decide) (by decide)
  · rw [hcons]
    show b ∈ (str "; ").intercalate (cookie_pair c :: cookies.map cookie_pair)
    rw [intercalate_blank]
    exact subset_intercalate 59 _ _ List.mem_cons_self hb

theorem headers_ok : ∀ h ∈ R.headers, HeaderOk h := by
  intro h hh
  rcases List.mem_append.mp hh with hh | hh
  · exact R.before_ok h hh
  · rcases List.mem_cons.mp hh with rfl | hh
    · exact R.cookie_header_ok
    · exact R.behind_ok h hh

/-- Without parameters to extract, the request can be built. -/
theorem exists_construct (path : Str) : ∃ req, construct R.bytes path [] = .ok req := by
  have hne : R.headers ≠ [] := by simp [headers]
  obtain ⟨m, hm, -⟩ := extract_headers_header_text hne R.headers_ok
  have hs : extract_headers R.bytes = .ok m :=
    (Decoding.extract_headers_lines R.line_ok hne R.headers_ok R.body).trans hm
  have hbody := body_of_find (find_terminator_of R.line_ok hne R.headers_ok R.body)
  exact ⟨⟨m, ∅, _, _, _⟩,
    construct_eq_ok_iff.mpr ⟨hs, extract_queries_nil _ _, hbody, rfl, rfl⟩⟩

end CookieRequest

/-- **COOKIES NEVER REACH**: every request with a cookie line can be built, and
    none of those built from its text has the cookies of the line. -/
theorem cookies_never_reach (R : CookieRequest) :
    (∀ path, ∃ req, construct R.bytes path [] = .ok req)
      ∧ ∀ path pnames req, construct R.bytes path pnames = .ok req →
          ¬ CookiesReach req R.cookies := by
  refine ⟨R.exists_construct, ?_⟩
  intro path pnames req hreq hreach
  obtain ⟨c, hc⟩ := List.exists_mem_of_ne_nil _ R.cookies_ne
  obtain ⟨cookie, hfound, -⟩ := hreach.found c hc c.1 rfl
  rw [get_cookie_construct hreq] at hfound
  cases hfound

/-- Two cookies between two other lines. -/
def sample_cookies : CookieRequest where
  first_line := str "GET / HTTP/1.1"
  before := [(str "Host", str "a")]
  name := str "Cookie"
  cookies := [(str "sid", str "abc"), (str "theme", str "dark")]
  behind := [(str "DNT", str "1")]
  body := []
  line_ok := by decide
  before_ok := List.forall_mem_singleton.mpr
    ⟨by decide, by rintro b ⟨⟩; rfl, by decide, by decide, 97, by decide, rfl⟩
  name_ok := by decide
  cookies_ne := List.cons_ne_nil _ _
  cookies_ok := List.forall_mem_cons.mpr ⟨⟨by decide, by decide⟩,
    List.forall_mem_singleton.mpr ⟨by decide, by decide⟩⟩
  distinct := by decide
  behind_ok := List.forall_mem_singleton.mpr
    ⟨by decide, by rintro b ⟨⟩; rfl, by decide, by decide, 49, by decide, rfl⟩

theorem sample_cookies_never_reach :
    ∃ req, construct sample_cookies.bytes (str "/") [] = .ok req
      ∧ ¬ CookiesReach req sample_cookies.cookies := by
  obtain ⟨hbuilt, hnever⟩ := cookies_never_reach sample_cookies
  obtain ⟨req, hreq⟩ := hbuilt (str "/")
  exact ⟨req, hreq, hnever _ _ req hreq⟩

/-- The session cookie of a request is not there. -/
theorem session_cookie_lost :
    ∃ req, construct (str
        "GET / HTTP/1.1\r\nHost: a\r\nCookie: sid=abc; theme=dark\r\nDNT: 1\r\n\r\n")
        (str "/") [] = .ok req
      ∧ req.get_cookie (str "sid") = none
      ∧ ¬ CookiesReach req [(str "sid", str "abc"), (str "theme", str "dark")] := by
  have hbytes : sample_cookies.bytes = str
      "GET / HTTP/1.1\r\nHost: a\r\nCookie: sid=abc; theme=dark\r\nDNT: 1\r\n\r\n" := by decide
  obtain ⟨req, hreq⟩ := sample_cookies.exists_construct (str "/")
  rw [hbytes] at hreq
  have hnone := get_cookie_construct hreq (str "sid")
  refine ⟨req, hreq, hnone, ?_⟩
  intro hreach
  obtain ⟨cookie, hfound, -⟩ := hreach.found _ List.mem_cons_self (str "sid") rfl
  rw [hnone] at hfound
  cases hfound

end WebLib.RequestCookies
