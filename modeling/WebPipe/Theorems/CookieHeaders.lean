import Mathlib.Data.List.TakeWhile
import WebPipe.Http.Request

/-!
# Cookie headers

The value of a cookie is read up to its first `=`, so that a header is read back when no value has one. A header that is no visible ASCII
text, and an empty one, are read as one cookie without name and value.
-/

namespace WebPipe

/-- A cookie that a header can carry. -/
structure IsCookie (c : String × String) : Prop where
  nonempty : c.1 ≠ ""
  no_equals : '=' ∉ c.1.toList
  name_no_semicolon : ';' ∉ c.1.toList
  name_trimmed : Text.trim c.1 = c.1
  value_no_semicolon : ';' ∉ c.2.toList
  value_trimmed : Text.trim c.2 = c.2

/-- A cookie as it is written. -/
def cookieText (c : String × String) : List Char := c.1.toList ++ '=' :: c.2.toList

/-- A header as it is written. -/
def cookieHeader (cookies : List (String × String)) : String := String.ofList ("; ".toList.intercalate (cookies.map cookieText))

/-- The visible ASCII characters, blanks and tabs. -/
def isVisible (c : Char) : Bool := (32 ≤ c.toNat && c.toNat < 127) || c = '\t'

/-- The header is read back as the cookies. -/
def CookiesRead (toStr : String → Option String) (cookies : List (String × String)) : Prop :=
  ∀ name, IndexMap.get (parseCookiesFromHeaders toStr (some (cookieHeader cookies))) name = IndexMap.get cookies name

/-- The pieces of a header. -/
theorem split_cookieHeader {c : String × String} {cs : List (String × String)} (h : ∀ d ∈ c :: cs, IsCookie d) :
    (cookieHeader (c :: cs)).toList.splitOn ';' = cookieText c :: cs.map fun d => ' ' :: cookieText d := by
  have hno : ∀ d ∈ c :: cs, ';' ∉ cookieText d := by
    intro d hd
    simp [cookieText, (h d hd).name_no_semicolon, (h d hd).value_no_semicolon]
  rw [cookieHeader, String.toList_ofList]
  induction cs generalizing c with
  | nil =>
    rw [List.map_singleton, List.intercalate_singleton, List.splitOn_eq_singleton (hno c (by simp))]
    rfl
  | cons d cs ih =>
    have hrest := ih (fun e he => h e (List.mem_cons_of_mem _ he)) fun e he => hno e (List.mem_cons_of_mem _ he)
    have htext : "; ".toList.intercalate ((c :: d :: cs).map cookieText) =
        cookieText c ++ ';' :: (' ' :: "; ".toList.intercalate ((d :: cs).map cookieText)) := by
      rw [List.map_cons, List.map_cons, List.intercalate_cons_cons]
      simp
    rw [htext, List.splitOn_append_cons_self, List.splitOn_eq_singleton (hno c (by simp)), List.splitOn_cons_eq_if_modifyHead, hrest]
    rfl

theorem dropWhile_append_of_self {p : Char → Bool} {l : List Char} (h : l.dropWhile p = l) (hl : l ≠ []) (l' : List Char) :
    (l ++ l').dropWhile p = l ++ l' := by
  cases l with
  | nil => exact absurd rfl hl
  | cons c l =>
    have hc : ¬p c = true := by
      intro hc
      rw [List.dropWhile_cons_of_pos hc] at h
      have := (List.dropWhile_suffix p (l := l)).length_le
      rw [h, List.length_cons] at this
      omega
    rw [List.cons_append, List.dropWhile_cons_of_neg hc]

/-- A cookie as it is written has no white space around it. -/
theorem IsCookie.trimChars_cookieText {c : String × String} (h : IsCookie c) : Text.trimChars (cookieText c) = cookieText c := by
  obtain ⟨hname, -⟩ := Text.trimChars_eq_self_iff.mp (Text.trim_eq_self_iff.mp h.name_trimmed)
  obtain ⟨-, hvalue⟩ := Text.trimChars_eq_self_iff.mp (Text.trim_eq_self_iff.mp h.value_trimmed)
  have hne : c.1.toList ≠ [] := fun he => h.nonempty (String.toList_injective he)
  refine Text.trimChars_eq_self_iff.mpr ⟨dropWhile_append_of_self hname hne _, ?_⟩
  cases hv : c.2.toList with
  | nil =>
    rw [cookieText, hv, List.reverse_append, List.reverse_cons, List.reverse_nil, List.nil_append, List.singleton_append,
      List.dropWhile_cons_of_neg (by decide)]
  | cons a l =>
    rw [hv] at hvalue
    rw [cookieText, hv, List.reverse_append, List.reverse_cons, List.append_assoc]
    exact dropWhile_append_of_self hvalue (by simp) _

/-- A cookie as it is read. -/
def readCookie (c : String × String) : String × String := (c.1, String.ofList (c.2.toList.takeWhile (· != '=')))

theorem cookiePair_cookieText {c : String × String} (h : IsCookie c) {pre : List Char} (hpre : ∀ a ∈ pre, Text.isWhitespace a = true) :
    cookiePair (String.ofList (pre ++ cookieText c)) = some (readCookie c) := by
  rw [cookiePair, Text.trim, String.toList_ofList, Text.trimChars_append hpre h.trimChars_cookieText, cookieText,
    splitPair_of_mem h.no_equals, String.ofList_toList]
  rfl

/-- The cookies of a header that is read as text. -/
theorem parse_cookieHeader {toStr : String → Option String} {cs : List (String × String)} (hne : cs ≠ []) (h : ∀ c ∈ cs, IsCookie c)
    (htext : toStr (cookieHeader cs) = some (cookieHeader cs)) :
    parseCookiesFromHeaders toStr (some (cookieHeader cs)) = IndexMap.insertAll [] (cs.map readCookie) := by
  have hpieces : (Text.split ';' (cookieHeader cs)).filterMap cookiePair = cs.map readCookie := by
    cases cs with
    | nil => exact absurd rfl hne
    | cons c cs =>
      have hfirst : cookiePair (String.ofList ([] ++ cookieText c)) = some (readCookie c) :=
        cookiePair_cookieText (h c (by simp)) (List.forall_mem_nil _)
      rw [List.nil_append] at hfirst
      have hmore : ∀ d ∈ cs, (cookiePair ∘ String.ofList ∘ fun d => ' ' :: cookieText d) d = (some ∘ readCookie) d := by
        intro d hd
        have hpiece : cookiePair (String.ofList ([' '] ++ cookieText d)) = some (readCookie d) :=
          cookiePair_cookieText (h d (List.mem_cons_of_mem _ hd)) (by simp [Text.isWhitespace])
        simp only [List.singleton_append] at hpiece
        simp only [Function.comp_apply, hpiece]
      rw [text_split_toList, split_cookieHeader h, List.map_cons, List.map_map, List.filterMap_cons_some hfirst, List.filterMap_map,
        List.map_cons, List.filterMap_congr hmore, List.filterMap_eq_map]
  rw [parseCookiesFromHeaders, Option.bind_some, htext, Option.getD_some, hpieces]

/-- A header that is no text, and an empty one, are read as a cookie without name. -/
theorem parse_no_text {toStr : String → Option String} {header : String} (h : toStr header = none ∨ toStr header = some "") :
    parseCookiesFromHeaders toStr (some header) = [("", "")] := by
  rcases h with h | h <;> rw [parseCookiesFromHeaders, Option.bind_some, h] <;> rfl

/-- The cookies of a header are read back when no value has a `=`. -/
theorem get_readCookies_iff {cs : List (String × String)} (hd : IndexMap.Distinct cs) :
    (∀ name, IndexMap.get (IndexMap.insertAll [] (cs.map readCookie)) name = IndexMap.get cs name) ↔
      ∀ c ∈ cs, '=' ∉ c.2.toList := by
  have hnames : (cs.map readCookie).map Prod.fst = cs.map Prod.fst := by rw [List.map_map]; rfl
  have hdistinct : IndexMap.Distinct (cs.map readCookie) := by rw [IndexMap.Distinct, hnames]; exact hd
  have hget : ∀ name, IndexMap.get (IndexMap.insertAll [] (cs.map readCookie)) name = IndexMap.get (cs.map readCookie) name := by
    intro name
    rw [IndexMap.get_insertAll hdistinct, IndexMap.get_nil, Option.or_none]
  constructor
  · intro h c hc hequals
    have hread : IndexMap.get (cs.map readCookie) c.1 = some (readCookie c).2 :=
      (IndexMap.get_eq_some_iff hdistinct).mpr (List.mem_map_of_mem hc)
    have hsame : IndexMap.get cs c.1 = some c.2 := (IndexMap.get_eq_some_iff hd).mpr hc
    rw [← hget, h, hsame] at hread
    have hvalue : c.2.toList = c.2.toList.takeWhile (· != '=') := by
      conv_lhs => rw [Option.some.inj hread]
      exact String.toList_ofList
    rw [hvalue] at hequals
    simpa using List.mem_takeWhile_imp hequals
  · intro h name
    have hid : cs.map readCookie = cs := by
      rw [List.map_congr_left (g := id), List.map_id]
      intro c hc
      have hall : c.2.toList.takeWhile (· != '=') = c.2.toList := by
        rw [List.takeWhile_eq_self_iff]
        intro a ha
        exact bne_iff_ne.mpr fun he => h c hc (he ▸ ha)
      rw [readCookie, hall, String.ofList_toList]
      rfl
    rw [hget, hid]

/-- A header is read back exactly when there is a cookie, the header is visible ASCII text, and no value has a `=`. `HeaderValue::to_str`
reads visible ASCII text and nothing else. -/
theorem cookies_read_iff {toStr : String → Option String}
    (hstr : ∀ header, toStr header = if header.toList.all isVisible then some header else none) {cookies : List (String × String)}
    (hdistinct : IndexMap.Distinct cookies) (hcookies : ∀ c ∈ cookies, IsCookie c) :
    CookiesRead toStr cookies ↔
      cookies ≠ [] ∧ (cookieHeader cookies).toList.all isVisible = true ∧ ∀ c ∈ cookies, '=' ∉ c.2.toList := by
  have hno : toStr (cookieHeader cookies) = none ∨ toStr (cookieHeader cookies) = some "" → ¬CookiesRead toStr cookies := by
    intro htext hread
    have hempty := hread ""
    rw [parse_no_text htext] at hempty
    have hmem := (IndexMap.get_eq_some_iff hdistinct).mp hempty.symm
    exact (hcookies _ hmem).nonempty rfl
  by_cases hne : cookies = []
  · subst hne
    exact iff_of_false (hno (Or.inr (hstr _))) fun h => h.1 rfl
  · by_cases hvisible : (cookieHeader cookies).toList.all isVisible = true
    · have htext : toStr (cookieHeader cookies) = some (cookieHeader cookies) := by rw [hstr, if_pos hvisible]
      rw [CookiesRead, parse_cookieHeader hne hcookies htext, get_readCookies_iff hdistinct]
      exact ⟨fun h => ⟨hne, hvisible, h⟩, fun h => h.2.2⟩
    · exact iff_of_false (hno (Or.inl (by rw [hstr, if_neg hvisible]))) fun h => hvisible h.2.1

/-- What reads visible ASCII text. -/
def visibleText (header : String) : Option String := if header.toList.all isVisible then some header else none

/-- `a=1; b=two` is read back. -/
theorem two_cookies_read : CookiesRead visibleText [("a", "1"), ("b", "two")] :=
  (cookies_read_iff (fun _ => rfl) (by unfold IndexMap.Distinct; decide) fun c hc => by
    rcases List.mem_cons.mp hc with rfl | hc
    · exact ⟨by decide, by decide, by decide, by decide, by decide, by decide⟩
    · rw [List.mem_singleton.mp hc]
      exact ⟨by decide, by decide, by decide, by decide, by decide, by decide⟩).mpr ⟨by decide, by decide, by decide⟩

/-- A token that ends in `==` loses its end. -/
theorem signed_token_truncated :
    parseCookiesFromHeaders visibleText (some (cookieHeader [("session", "YWJj==")])) = [("session", "YWJj")] ∧
      ¬CookiesRead visibleText [("session", "YWJj==")] := by
  have hparse : parseCookiesFromHeaders visibleText (some (cookieHeader [("session", "YWJj==")])) = [("session", "YWJj")] := by
    decide +kernel
  refine ⟨hparse, fun h => ?_⟩
  have hsession := h "session"
  rw [hparse] at hsession
  exact absurd hsession (by decide)

end WebPipe
