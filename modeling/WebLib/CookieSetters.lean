import WebLib.Cookie

/-! # A cookie after its setters

    Every setter assigns one member, so a member has what the last call of its
    setter gave it, or what it was constructed with.  The setters of attributes
    also mark the cookie as a response cookie, for good.  The text is stated
    from the calls alone: the attributes in force, each behind its separator. -/

namespace WebLib

/-! ## Members that calls assign -/

namespace Calls

variable {σ κ α : Type*}

/-- The value of the last call that gives one. -/
def last (value : κ → Option α) (calls : List κ) : Option α := calls.reverse.findSome? value

theorem last_concat (value : κ → Option α) (calls : List κ) (call : κ) :
    last value (calls ++ [call]) = (value call).or (last value calls) := by
  rw [last, List.reverse_append, List.reverse_singleton, List.singleton_append, List.findSome?_cons]
  cases value call <;> rfl

/-- **LAST CALL WINS**: a member that each call assigns or leaves alone. -/
theorem foldl_last (step : σ → κ → σ) (member : σ → α) (value : κ → Option α)
    (hstep : ∀ s call, member (step s call) = (value call).getD (member s)) (s : σ)
    (calls : List κ) : member (calls.foldl step s) = (last value calls).getD (member s) := by
  induction calls using List.reverseRecOn with
  | nil => rfl
  | append_singleton calls call ih =>
      rw [List.foldl_append, List.foldl_cons, List.foldl_nil, hstep, ih, last_concat]
      cases value call <;> rfl

/-- The same for a member that may be empty and no call empties. -/
theorem foldl_last_or (step : σ → κ → σ) (member : σ → Option α) (value : κ → Option α)
    (hstep : ∀ s call, member (step s call) = (value call).or (member s)) (s : σ)
    (calls : List κ) : member (calls.foldl step s) = (last value calls).or (member s) := by
  induction calls using List.reverseRecOn with
  | nil => rfl
  | append_singleton calls call ih =>
      rw [List.foldl_append, List.foldl_cons, List.foldl_nil, hstep, ih, last_concat,
        Option.or_assoc]

/-- A mark that some calls set and none clears. -/
theorem foldl_any (step : σ → κ → σ) (mark : σ → Bool) (sets : κ → Bool)
    (hstep : ∀ s call, mark (step s call) = (mark s || sets call)) (s : σ) (calls : List κ) :
    mark (calls.foldl step s) = (mark s || calls.any sets) := by
  induction calls generalizing s with
  | nil => simp
  | cons call calls ih => rw [List.foldl_cons, ih, hstep, List.any_cons, Bool.or_assoc]

end Calls

open ByteString Calls

namespace Cookie

/-! ## The setters -/

def set_name (cookie : Cookie) (new_name : Str) : Cookie := { cookie with m_name := new_name }

def set_value (cookie : Cookie) (new_val : Str) : Cookie := { cookie with m_value := new_val }

def set_httponly (cookie : Cookie) (val : Bool) : Cookie :=
  { cookie with m_httpOnly := val, m_response_cookie := true }

def set_secure (cookie : Cookie) (val : Bool) : Cookie :=
  { cookie with m_secure := val, m_response_cookie := true }

def set_max_age (cookie : Cookie) (new_max_age : Int) : Cookie :=
  { cookie with m_max_age := some new_max_age, m_response_cookie := true }

def set_path (cookie : Cookie) (new_path : Str) : Cookie :=
  { cookie with m_path := new_path, m_response_cookie := true }

def set_domain (cookie : Cookie) (new_domain : Str) : Cookie :=
  { cookie with m_domain := new_domain, m_response_cookie := true }

def set_samesite (cookie : Cookie) (new_rule : SameSite) : Cookie :=
  { cookie with m_response_cookie := true, m_samesite := new_rule }

/-- A call of a setter. -/
inductive Setter where
  | name (new_name : Str)
  | value (new_val : Str)
  | httponly (val : Bool)
  | secure (val : Bool)
  | max_age (new_max_age : Int)
  | path (new_path : Str)
  | domain (new_domain : Str)
  | samesite (new_rule : SameSite)
deriving DecidableEq, Repr

def apply (cookie : Cookie) : Setter → Cookie
  | .name new_name => cookie.set_name new_name
  | .value new_val => cookie.set_value new_val
  | .httponly val => cookie.set_httponly val
  | .secure val => cookie.set_secure val
  | .max_age new_max_age => cookie.set_max_age new_max_age
  | .path new_path => cookie.set_path new_path
  | .domain new_domain => cookie.set_domain new_domain
  | .samesite new_rule => cookie.set_samesite new_rule

/-- A cookie made with a name and a value and then changed. -/
def after (key val : Str) (calls : List Setter) : Cookie := calls.foldl apply (new key val)

/-- The default constructor makes one of them. -/
example (calls : List Setter) : after [] [] calls = calls.foldl apply {} := rfl

/-! ## What the calls say -/

namespace Setter

def name? : Setter → Option Str
  | .name new_name => some new_name
  | _ => none

def value? : Setter → Option Str
  | .value new_val => some new_val
  | _ => none

def httponly? : Setter → Option Bool
  | .httponly val => some val
  | _ => none

def secure? : Setter → Option Bool
  | .secure val => some val
  | _ => none

def max_age? : Setter → Option Int
  | .max_age new_max_age => some new_max_age
  | _ => none

def path? : Setter → Option Str
  | .path new_path => some new_path
  | _ => none

def domain? : Setter → Option Str
  | .domain new_domain => some new_domain
  | _ => none

def samesite? : Setter → Option SameSite
  | .samesite new_rule => some new_rule
  | _ => none

/-- All but the setters of name and value. -/
def is_attribute : Setter → Bool
  | .name _ => false
  | .value _ => false
  | _ => true

end Setter

/-- The members of a cookie are what the calls say. -/
theorem after_eq (key val : Str) (calls : List Setter) :
    after key val calls =
      { m_name := (last Setter.name? calls).getD key
        m_value := (last Setter.value? calls).getD val
        m_httpOnly := (last Setter.httponly? calls).getD false
        m_secure := (last Setter.secure? calls).getD false
        m_max_age := last Setter.max_age? calls
        m_path := (last Setter.path? calls).getD []
        m_domain := (last Setter.domain? calls).getD []
        m_samesite := (last Setter.samesite? calls).getD .None
        m_response_cookie := calls.any Setter.is_attribute } := by
  have hname : (after key val calls).m_name = (last Setter.name? calls).getD key :=
    foldl_last apply m_name _ (by intro c call; cases call <;> rfl) (new key val) calls
  have hvalue : (after key val calls).m_value = (last Setter.value? calls).getD val :=
    foldl_last apply m_value _ (by intro c call; cases call <;> rfl) (new key val) calls
  have honly : (after key val calls).m_httpOnly = (last Setter.httponly? calls).getD false :=
    foldl_last apply m_httpOnly _ (by intro c call; cases call <;> rfl) (new key val) calls
  have hsecure : (after key val calls).m_secure = (last Setter.secure? calls).getD false :=
    foldl_last apply m_secure _ (by intro c call; cases call <;> rfl) (new key val) calls
  have hage : (after key val calls).m_max_age = (last Setter.max_age? calls).or none :=
    foldl_last_or apply m_max_age _ (by intro c call; cases call <;> rfl) (new key val) calls
  have hpath : (after key val calls).m_path = (last Setter.path? calls).getD [] :=
    foldl_last apply m_path _ (by intro c call; cases call <;> rfl) (new key val) calls
  have hdomain : (after key val calls).m_domain = (last Setter.domain? calls).getD [] :=
    foldl_last apply m_domain _ (by intro c call; cases call <;> rfl) (new key val) calls
  have hrule : (after key val calls).m_samesite = (last Setter.samesite? calls).getD .None :=
    foldl_last apply m_samesite _ (by intro c call; cases call <;> rfl) (new key val) calls
  have hmark : (after key val calls).m_response_cookie
      = (false || calls.any Setter.is_attribute) :=
    foldl_any apply m_response_cookie _ (by
      intro c call
      cases call with
      | name => exact (Bool.or_false _).symm
      | value => exact (Bool.or_false _).symm
      | _ => exact (Bool.or_true _).symm) (new key val) calls
  rw [Option.or_none] at hage
  rw [Bool.false_or] at hmark
  rw [← hname, ← hvalue, ← honly, ← hsecure, ← hage, ← hpath, ← hdomain, ← hrule, ← hmark]

/-! ## The text -/

/-- The attributes of a cookie but the last one. -/
def optional_attributes (cookie : Cookie) : List Str :=
  (cookie.m_max_age.map fun n => str "Max-Age=" ++ str (toString n)).toList
    ++ (if cookie.m_secure then [str "Secure"] else [])
    ++ (if cookie.m_httpOnly then [str "HttpOnly"] else [])
    ++ (if cookie.m_path = [] then [] else [str "Path=" ++ cookie.m_path])
    ++ (if cookie.m_domain = [] then [] else [str "Domain=" ++ cookie.m_domain])

/-- A separator behind each is one before each. -/
theorem separators (sep : Str) (ps : List Str) (p : Str) :
    sep ++ (ps.flatMap (fun q => q ++ sep) ++ p) = (ps ++ [p]).flatMap fun q => sep ++ q := by
  induction ps with
  | nil => simp
  | cons q ps ih =>
      rw [List.flatMap_cons, List.cons_append, List.flatMap_cons, ← ih]
      simp only [List.append_assoc]

theorem attributes_eq (cookie : Cookie) :
    cookie.attributes = cookie.optional_attributes.flatMap (fun q => q ++ str "; ")
      ++ (str "SameSite=" ++ cookie.m_samesite.text) := by
  have hflag : ∀ (b : Bool) (s : Str), (if b then s ++ str "; " else [])
      = (if b then [s] else []).flatMap fun q => q ++ str "; " := by
    intro b s
    cases b <;> simp
  have htext : ∀ s t : Str, (if t.isEmpty then [] else s ++ t ++ str "; ")
      = (if t = [] then [] else [s ++ t]).flatMap fun q => q ++ str "; " := by
    intro s t
    cases t <;> simp
  rw [attributes, optional_attributes, List.flatMap_append, List.flatMap_append,
    List.flatMap_append, List.flatMap_append, List.append_assoc]
  refine congrArg (· ++ _) ?_
  refine congrArg₂ (· ++ ·) (congrArg₂ (· ++ ·) (congrArg₂ (· ++ ·) (congrArg₂ (· ++ ·) ?_
    (hflag _ (str "Secure"))) (hflag _ (str "HttpOnly"))) (htext _ _)) (htext _ _)
  cases cookie.m_max_age <;> simp

/-- The attributes in force after the calls, in the order of the text. -/
def in_force (calls : List Setter) : List Str :=
  ((last Setter.max_age? calls).map fun n => str "Max-Age=" ++ str (toString n)).toList
    ++ (if last Setter.secure? calls = some true then [str "Secure"] else [])
    ++ (if last Setter.httponly? calls = some true then [str "HttpOnly"] else [])
    ++ (match last Setter.path? calls with
        | some (b :: path) => [str "Path=" ++ b :: path]
        | _ => [])
    ++ (match last Setter.domain? calls with
        | some (b :: domain) => [str "Domain=" ++ b :: domain]
        | _ => [])
    ++ [str "SameSite=" ++ ((last Setter.samesite? calls).getD .None).text]

theorem in_force_eq (key val : Str) (calls : List Setter) :
    (after key val calls).optional_attributes
      ++ [str "SameSite=" ++ (after key val calls).m_samesite.text] = in_force calls := by
  have hflag : ∀ (o : Option Bool) (s : Str), (if o.getD false then [s] else [])
      = if o = some true then [s] else [] := by
    intro o s
    cases o with
    | none => rfl
    | some b => cases b <;> rfl
  rw [after_eq, optional_attributes, in_force]
  simp only [hflag]
  refine congrArg (· ++ _) ?_
  refine congrArg₂ (· ++ ·) (congrArg₂ (· ++ ·) rfl ?_) ?_
  · match last Setter.path? calls with
    | none => rfl
    | some [] => rfl
    | some (b :: path) => exact if_neg (List.cons_ne_nil b path)
  · match last Setter.domain? calls with
    | none => rfl
    | some [] => rfl
    | some (b :: domain) => exact if_neg (List.cons_ne_nil b domain)

/-- The text the calls describe. -/
def described (name value : Str) (calls : List Setter) : Str :=
  name ++ 61 :: (value ++ if calls.any Setter.is_attribute then
    (in_force calls).flatMap fun q => str "; " ++ q else [])

/-- Name and value after the calls. -/
def name_after (key : Str) (calls : List Setter) : Str := (last Setter.name? calls).getD key

def value_after (val : Str) (calls : List Setter) : Str := (last Setter.value? calls).getD val

theorem to_string_after {key val : Str} {calls : List Setter} (hname : name_after key calls ≠ [])
    (hvalue : value_after val calls ≠ []) :
    (after key val calls).to_string
      = .ok (described (name_after key calls) (value_after val calls) calls) := by
  have hfilled : (after key val calls).Filled := by
    rw [after_eq]
    exact ⟨hname, hvalue⟩
  have htext : str "; " ++ (after key val calls).attributes
      = (in_force calls).flatMap fun q => str "; " ++ q := by
    rw [attributes_eq, separators, in_force_eq]
  rw [to_string_of_filled hfilled, htext, after_eq]
  simp only [described, name_after, value_after]
  rw [show str "=" = [61] from rfl]
  simp only [List.append_assoc, List.cons_append, List.nil_append]

/-- Behind the last separator stands a policy. -/
theorem getLast_in_force (calls : List Setter) :
    ∀ b ∈ ((in_force calls).flatMap fun q => str "; " ++ q).getLast?, b ≠ 59 ∧ b ≠ 32 := by
  intro b hb
  have hpolicy : ∀ rule : SameSite, ∀ b ∈ rule.text.getLast?, b ≠ 59 ∧ b ≠ 32 := by
    intro rule
    cases rule <;> rintro b ⟨⟩ <;> decide
  have hne : ∀ rule : SameSite, rule.text ≠ [] := by
    intro rule
    cases rule <;> decide
  rw [in_force, List.flatMap_append, List.flatMap_singleton, ← List.append_assoc,
    ← List.append_assoc, List.getLast?_append_of_ne_nil _ (hne _)] at hb
  exact hpolicy _ b hb

/-- **A COOKIE'S TEXT** after any calls: it throws without a name or a value, has no
    attributes when none was set, and otherwise each of those in force behind a
    separator, with nothing left over at the end. -/
theorem to_string_exact (key val : Str) (calls : List Setter) :
    ((∃ e, (after key val calls).to_string = .error e)
        ↔ name_after key calls = [] ∨ value_after val calls = [])
      ∧ (name_after key calls ≠ [] → value_after val calls ≠ [] →
        (after key val calls).to_string
          = .ok (described (name_after key calls) (value_after val calls) calls))
      ∧ (calls.any Setter.is_attribute = true →
        ∀ b ∈ (described (name_after key calls) (value_after val calls) calls).getLast?,
          b ≠ 59 ∧ b ≠ 32) := by
  refine ⟨⟨?_, ?_⟩, to_string_after, ?_⟩
  · rintro ⟨e, he⟩
    by_contra hne
    obtain ⟨hname, hvalue⟩ := not_or.mp hne
    rw [to_string_after hname hvalue] at he
    cases he
  · intro hempty
    refine ⟨.empty_cookie, if_pos ?_⟩
    rw [after_eq]
    rcases hempty with hname | hvalue
    · rw [name_after] at hname
      simp [hname]
    · rw [value_after] at hvalue
      simp [hvalue]
  · intro hset b hb
    have hne : ((in_force calls).flatMap fun q => str "; " ++ q) ≠ [] := by
      rw [in_force, List.flatMap_append]
      simp [str]
    rw [described, hset, if_pos rfl, ← List.singleton_append, ← List.append_assoc,
      ← List.append_assoc, List.getLast?_append_of_ne_nil _ hne] at hb
    exact getLast_in_force calls b hb

example : (after [] [] [.name (str "a"), .path (str "x"), .value (str "b;"), .path (str "/;"),
    .httponly true]).to_string = .ok (str "a=b;; HttpOnly; Path=/;; SameSite=None") := by rfl

end Cookie

end WebLib
