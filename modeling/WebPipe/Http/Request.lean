import WebPipe.Json
import WebPipe.Lib.Text
import WebPipe.Lib.Utf8

/-!
# Requests

What `http/request.rs` makes of a cookie header and of a body. Reading a header as text, reading JSON, and reading a decimal number as a
finite `f64` are parameters.
-/

namespace WebPipe

/-- The two parts of a pair: what stands before the first `=`, and between it and the next. -/
def splitPair (pair : String) : Option (String × String) :=
  let parts := Text.split '=' pair
  parts.head?.map fun key => (key, parts[1]?.getD "")

section Body

variable (parseFloat : String → Option FloatText) (fromSlice : List UInt8 → Option Value)

/-- `string_to_number_or_string`. -/
def stringToNumberOrString (s : String) : Value :=
  match Text.parseSigned 64 s with
  | some i => .number (.int i)
  | none =>
    match parseFloat s with
    | some f => .number (.float f)
    | none => .string s

/-- `string_map_to_json_with_number_coercion`; the members are in the order of the map here, and in any order in the source. -/
def stringMapToJsonWithNumberCoercion (map : List (String × String)) : Value :=
  .object (IndexMap.insertAll [] (map.map fun kv => (kv.1, stringToNumberOrString parseFloat kv.2)))

/-- `parse_body_from_content_type`. -/
def parseBodyFromContentType (body : List UInt8) (contentType : String) : Value :=
  if body.isEmpty then .object []
  else if "application/json".toList.isPrefixOf contentType.toList then (fromSlice body).getD .null
  else if "application/x-www-form-urlencoded".toList.isPrefixOf contentType.toList then
    let formStr := String.ofList (Text.fromUtf8Lossy body)
    stringMapToJsonWithNumberCoercion parseFloat (IndexMap.insertAll [] ((Text.split '&' formStr).filterMap splitPair))
  else .string (String.ofList (Text.fromUtf8Lossy body))

end Body

/-- A cookie from a piece of the header. -/
def cookiePair (cookie : String) : Option (String × String) := splitPair (Text.trim cookie)

/-- `parse_cookies_from_headers`, from the `cookie` header as text: there may be none, and it may be no text. -/
def parseCookiesFromHeaders (toStr : String → Option String) (cookie : Option String) : List (String × String) :=
  IndexMap.insertAll [] ((Text.split ';' ((cookie.bind toStr).getD "")).filterMap cookiePair)

/-! ## Pieces -/

theorem text_split_toList (c : Char) (s : String) : Text.split c s = (s.toList.splitOn c).map String.ofList := rfl

/-- The first parts of a text with a separator. -/
theorem splitPair_of_mem {key value : List Char} (hkey : '=' ∉ key) :
    splitPair (String.ofList (key ++ '=' :: value)) = some (String.ofList key, String.ofList (value.takeWhile (· != '='))) := by
  have hsplit : (key ++ '=' :: value).splitOn '=' = key :: value.splitOn '=' := by
    rw [List.splitOn_append_cons_self, List.splitOn_eq_singleton hkey]
    rfl
  have hfirst : ∀ l : List Char, ∃ more, l.splitOn '=' = l.takeWhile (· != '=') :: more := by
    intro l
    induction l with
    | nil => exact ⟨[], rfl⟩
    | cons c l ih =>
      obtain ⟨more, hmore⟩ := ih
      by_cases hc : c = '='
      · subst hc
        exact ⟨l.splitOn '=', by simp [List.splitOn_cons_eq_if_modifyHead]⟩
      · refine ⟨more, ?_⟩
        rw [List.splitOn_cons_eq_if_modifyHead, if_neg (by simpa using hc), hmore, List.takeWhile_cons_of_pos (by simpa using hc)]
        rfl
  obtain ⟨more, hmore⟩ := hfirst value
  unfold splitPair
  rw [text_split_toList, String.toList_ofList, hsplit, hmore]
  rfl

end WebPipe
