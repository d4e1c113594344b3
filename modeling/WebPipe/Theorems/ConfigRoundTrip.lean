import WebPipe.Lemmas.Tokens
import WebPipe.Parser.Config

/-!
# Printed configurations are read back

What the parser can make is printed so that it reads it again: a value ends at the line break after it, and what the next line starts
with is neither more of the value nor the default of an environment variable.
-/

namespace WebPipe
namespace Parser

open Nom

/-! ## What the parser makes -/

/-- A value that the parser makes: texts without quotes, identifiers, and numbers of 63 bits. -/
inductive ParsedValue : ConfigValue → Prop
  | string {s : String} (h : '"' ∉ s.toList) : ParsedValue (.string s)
  | envDefault {var default : String} (hvar : IsIdentifier var.toList) (hdefault : '"' ∉ default.toList) :
      ParsedValue (.envVar var (some default))
  | envVar {var : String} (hvar : IsIdentifier var.toList) : ParsedValue (.envVar var none)
  | boolean (b : Bool) : ParsedValue (.boolean b)
  | number {n : ℕ} (hn : n < 2 ^ 63) : ParsedValue (.number n)

/-- A property that the parser makes. -/
structure ParsedProperty (p : ConfigProperty) : Prop where
  key : IsIdentifier p.key.toList
  value : ParsedValue p.value

/-- A configuration that the parser makes. -/
structure ParsedConfig (c : Config) : Prop where
  name : IsIdentifier c.name.toList
  properties : ∀ p ∈ c.properties, ParsedProperty p

theorem yields_takeWhile1_digits : Yields (takeWhile1 Text.isDigit) Text.IsDigits := by
  intro l t r h
  obtain ⟨-, hne, hall, -⟩ := takeWhile1_eq_ok h
  exact ⟨hne, hall⟩

/-- The parser yields only values it can write. -/
theorem yields_parseConfigValue : Yields parseConfigValue ParsedValue := by
  have hvar : Yields parseEnvVar fun s => IsIdentifier s.toList := yields_parseIdentifier.preceded
  refine Yields.alt ?_ (Yields.alt ?_ (Yields.alt ?_ (Yields.alt ?_ ?_)))
  · exact hvar.bind fun _ hvar => (yields_between '"').preceded.bind fun _ hdefault => yields_pure (.envDefault hvar hdefault)
  · exact hvar.bind fun _ hvar => yields_pure (.envVar hvar)
  · exact (yields_between '"').bind fun _ hs => yields_pure (.string hs)
  · exact yields_bind fun _ => yields_pure (.boolean _)
  · refine yields_takeWhile1_digits.bind fun s hs => ?_
    have hdigits : Text.IsDigits (String.ofList s).toList := by rwa [String.toList_ofList]
    rw [Text.parseSigned_of_digits hdigits]
    by_cases hlt : Text.digitsValue (String.ofList s).toList < 2 ^ (64 - 1)
    · rw [if_pos hlt]
      exact yields_pure (.number hlt)
    · rw [if_neg hlt]
      exact nofun

/-- The parser yields only properties it can write. -/
theorem yields_parseConfigProperty : Yields parseConfigProperty ParsedProperty :=
  yields_bind fun _ => yields_parseIdentifier.bind fun _ hkey => yields_bind fun _ => yields_bind fun _ => yields_bind fun _ =>
    yields_parseConfigValue.bind fun _ hvalue => yields_pure ⟨hkey, hvalue⟩

/-- The parser yields only configs it can write. -/
theorem yields_parseConfig : Yields parseConfig ParsedConfig :=
  yields_bind fun _ => yields_bind fun _ => yields_parseIdentifier.bind fun _ hname => yields_bind fun _ => yields_bind fun _ =>
    yields_bind fun _ => yields_parseConfigProperty.many0.bind fun _ hproperties => yields_bind fun _ => yields_bind fun _ =>
      yields_bind fun _ => yields_pure ⟨hname, hproperties⟩

/-! ## Values -/

/-- Text that follows a value: a line break, and after it and other blanks no `||`. -/
structure EndsValue (r : List Char) : Prop where
  line : r.head? = some '\n'
  noDefault : ¬"||".toList <+: r.dropWhile isMultispace

/-- A reader that does not take the end of a line stops after a value. -/
theorem EndsValue.stops {r : List Char} (h : EndsValue r) {p : Char → Bool} (hp : p '\n' = false) : ∀ c l', r = c :: l' → p c = false := by
  rintro c l' rfl
  have hline : c = '\n' := Option.some_inj.mp h.line
  rw [hline]
  exact hp

/-- A variable of the environment is read up to its end. -/
theorem parseEnvVar_append {var r : List Char} (hvar : IsIdentifier var) (hr : EndsIdent r) :
    parseEnvVar ('$' :: (var ++ r)) = .ok (String.ofList var, r) := by
  rw [parseEnvVar, preceded, bind_of_ok (char_self ..), parseIdentifier_append hvar hr]

theorem parseEnvVar_of_ne {a : Char} (h : a ≠ '$') (l : List Char) : parseEnvVar (a :: l) = .error .error := by
  rw [parseEnvVar, preceded, bind_of_error (char_of_ne h l)]

/-- The default of an environment variable stands after `||` and blanks. -/
theorem defaultSeparator_written {l : List Char} (h : NoBlank l) : defaultSeparator (" || ".toList ++ l) = .ok ((), l) := by
  have hfirst : multispace0 (" || ".toList ++ l) = .ok ([' '], "||".toList ++ (' ' :: l)) :=
    @multispace0_append [' '] _ (Text.forall_mem_of_all (by decide)) (noBlank_cons (c := '|') (by decide) _)
  have hsecond : multispace0 (' ' :: l) = .ok ([' '], l) := @multispace0_append [' '] _ (Text.forall_mem_of_all (by decide)) h
  rw [defaultSeparator, bind_of_ok hfirst, bind_of_ok (tag_append ..), bind_of_ok hsecond]
  rfl

/-- Without `||` there is no default. -/
theorem defaultSeparator_of_not {r : List Char} (h : ¬"||".toList <+: r.dropWhile isMultispace) :
    defaultSeparator r = .error .error := by
  have hblank : multispace0 r = .ok (r.takeWhile isMultispace, r.dropWhile isMultispace) := rfl
  rw [defaultSeparator, bind_of_ok hblank, bind_of_error (tag_eq_error h)]

/-- The parsers before the one for strings fail where no variable starts. -/
theorem parseConfigValue_of_ne {a : Char} (h : a ≠ '$') (l : List Char) :
    parseConfigValue (a :: l) =
      (alt (do let s ← between '"'; pure (.string s))
        (alt (do let s ← alt (tag "true") (tag "false"); pure (.boolean (s = "true"))) parseConfigNumber) : Parser ConfigValue)
        (a :: l) := by
  have hvar := parseEnvVar_of_ne h l
  rw [parseConfigValue, alt_of_error (by rw [bind_of_error hvar]), alt_of_error (by rw [bind_of_error hvar])]

/-- A variable without a default is read back. -/
theorem parseConfigValue_envVar {var r : List Char} (hvar : IsIdentifier var) (hr : EndsValue r) :
    parseConfigValue ('$' :: (var ++ r)) = .ok (.envVar (String.ofList var) none, r) := by
  have hread := parseEnvVar_append hvar (hr.stops (p := isIdentRest) (by decide))
  have hnone : preceded defaultSeparator (between '"') r = .error .error := by
    rw [preceded, bind_of_error (defaultSeparator_of_not hr.noDefault)]
  rw [parseConfigValue, alt_of_error (by rw [bind_of_ok hread, bind_of_error hnone])]
  exact alt_of_ok (by rw [bind_of_ok hread]; rfl)

/-- A variable with a default is read back. -/
theorem parseConfigValue_envDefault {var default : List Char} (hvar : IsIdentifier var) (hdefault : '"' ∉ default) (r : List Char) :
    parseConfigValue ('$' :: (var ++ (" || \"".toList ++ (default ++ '"' :: r)))) =
      .ok (.envVar (String.ofList var) (some (String.ofList default)), r) := by
  have hread := parseEnvVar_append hvar (r := " || \"".toList ++ (default ++ '"' :: r)) (endsIdent_cons (c := ' ') (by decide) _)
  have hsome : preceded defaultSeparator (between '"') (" || \"".toList ++ (default ++ '"' :: r)) =
      .ok (String.ofList default, r) := by
    have hsep := defaultSeparator_written (l := '"' :: (default ++ '"' :: r)) (noBlank_cons (by decide) _)
    change preceded defaultSeparator (between '"') (" || ".toList ++ '"' :: (default ++ '"' :: r)) = _
    rw [preceded, bind_of_ok hsep, between_append hdefault]
  refine alt_of_ok ?_
  rw [bind_of_ok hread, bind_of_ok hsome]
  rfl

/-- A string is read back. -/
theorem parseConfigValue_string {text : List Char} (htext : '"' ∉ text) (r : List Char) :
    parseConfigValue ('"' :: (text ++ '"' :: r)) = .ok (.string (String.ofList text), r) := by
  rw [parseConfigValue_of_ne (by decide)]
  refine alt_of_ok ?_
  rw [bind_of_ok (between_append htext r)]
  rfl

/-- A word is read as a boolean where neither a variable nor a string starts. -/
theorem parseConfigValue_word (word : String) {c : Char} {l r : List Char} (hword : word.toList = c :: l) (hvar : c ≠ '$')
    (hquote : c ≠ '"') (hread : alt (tag "true") (tag "false") (word.toList ++ r) = .ok (word, r)) :
    parseConfigValue (word.toList ++ r) = .ok (.boolean (word = "true"), r) := by
  rw [hword, List.cons_append] at hread ⊢
  rw [parseConfigValue_of_ne hvar, alt_of_error (by rw [bind_of_error (between_of_ne hquote _)])]
  refine alt_of_ok ?_
  rw [bind_of_ok hread]
  rfl

/-- A truth value is read back. -/
theorem parseConfigValue_boolean (b : Bool) (r : List Char) :
    parseConfigValue ((if b then "true" else "false").toList ++ r) = .ok (.boolean b, r) := by
  cases b with
  | true => exact parseConfigValue_word "true" rfl (by decide) (by decide) (alt_of_ok (tag_append ..))
  | false =>
    have hfirst : tag "true" ("false".toList ++ r) = .error .error := tag_eq_error fun h => by simp at h
    refine parseConfigValue_word "false" rfl (by decide) (by decide) ?_
    rw [alt_of_error hfirst, tag_append]

/-- A number of 63 bits is read back. -/
theorem parseConfigValue_number {n : ℕ} (hn : n < 2 ^ 63) {r : List Char} (hr : EndsValue r) :
    parseConfigValue (n.repr.toList ++ r) = .ok (.number n, r) := by
  have hdigits := Text.isDigits_repr n
  have htake : takeWhile1 Text.isDigit (n.repr.toList ++ r) = .ok (n.repr.toList, r) := by
    obtain ⟨htake, hdrop⟩ := takeWhile_append_of hdigits.digits (hr.stops (p := Text.isDigit) (by decide))
    unfold takeWhile1
    rw [htake, hdrop, if_neg (by simp)]
  have hread : Text.parseSigned 64 n.repr = some (n : Int) := by
    rw [Text.parseSigned_of_digits hdigits, Text.digitsValue_repr, if_pos hn]
  obtain ⟨c, l, hl⟩ := List.exists_cons_of_ne_nil hdigits.ne_nil
  have hc : Text.isDigit c = true := hdigits.digits c (by simp [hl])
  have hne : ∀ d, Text.isDigit d = false → c ≠ d := by
    rintro d hd rfl
    rw [hc] at hd
    cases hd
  have hword : alt (tag "true") (tag "false") (c :: (l ++ r)) = .error .error := by
    have htrue : tag "true" (c :: (l ++ r)) = .error .error :=
      tag_eq_error fun h => hne 't' (by decide) (List.cons_prefix_cons.mp h).1.symm
    rw [alt_of_error htrue]
    exact tag_eq_error fun h => hne 'f' (by decide) (List.cons_prefix_cons.mp h).1.symm
  rw [hl, List.cons_append] at htake ⊢
  rw [parseConfigValue_of_ne (hne '$' (by decide)), alt_of_error (by rw [bind_of_error (between_of_ne (hne '"' (by decide)) _)]),
    alt_of_error (by rw [bind_of_error hword]), parseConfigNumber, bind_of_ok htake, ← hl, String.ofList_toList]
  simp only [hread]
  rfl

/-- A printed value is read back before a line break. -/
theorem parseConfigValue_display {v : ConfigValue} (hv : ParsedValue v) {r : List Char} (hr : EndsValue r) :
    parseConfigValue (v.display ++ r) = .ok (v, r) := by
  cases hv with
  | @string s h => simpa [ConfigValue.display] using parseConfigValue_string h r
  | @envDefault var default hvar hdefault =>
    simpa [ConfigValue.display] using parseConfigValue_envDefault hvar hdefault r
  | @envVar var hvar => simpa [ConfigValue.display] using parseConfigValue_envVar hvar hr
  | boolean b => exact parseConfigValue_boolean b r
  | number hn => exact parseConfigValue_number hn hr

/-! ## Properties -/

/-- A value starts with no blank. -/
theorem noBlank_displayValue {v : ConfigValue} (hv : ParsedValue v) (r : List Char) : NoBlank (v.display ++ r) := by
  cases hv with
  | string | envDefault | envVar => exact noBlank_cons (by decide) _
  | boolean b => cases b <;> exact noBlank_cons (by decide) _
  | @number n hn =>
    have hdigits := Text.isDigits_repr n
    obtain ⟨c, l, hl⟩ := List.exists_cons_of_ne_nil hdigits.ne_nil
    have hc : Text.isDigit c = true := hdigits.digits c (by simp [hl])
    change NoBlank (n.repr.toList ++ r)
    rw [hl, List.cons_append]
    exact noBlank_cons (not_multispace_of_rest (by simp [isIdentRest, isIdentStart, Text.isAsciiAlphanumeric, hc])) _

/-- A printed property is read back before a line break, after blanks. -/
theorem parseConfigProperty_display {p : ConfigProperty} (hp : ParsedProperty p) {blanks r : List Char}
    (hblanks : ∀ c ∈ blanks, isMultispace c = true) (hr : EndsValue r) :
    parseConfigProperty (blanks ++ (p.display ++ r)) = .ok (p, r) := by
  have hend : EndsIdent (':' :: ' ' :: (p.value.display ++ r)) := endsIdent_cons (by decide) _
  have htext : p.display ++ r = p.key.toList ++ ':' :: ' ' :: (p.value.display ++ r) := by simp [ConfigProperty.display]
  have hcolon : multispace0 (':' :: ' ' :: (p.value.display ++ r)) = .ok ([], ':' :: ' ' :: (p.value.display ++ r)) :=
    multispace0_of_noBlank (noBlank_cons (by decide) _)
  have hspace : multispace0 (' ' :: (p.value.display ++ r)) = .ok ([' '], p.value.display ++ r) :=
    @multispace0_append [' '] _ (Text.forall_mem_of_all (by decide)) (noBlank_displayValue hp.value r)
  rw [htext, parseConfigProperty, bind_of_ok (multispace0_append hblanks (hp.key.noBlank _)),
    bind_of_ok (parseIdentifier_append hp.key hend), bind_of_ok hcolon, bind_of_ok (char_self ..), bind_of_ok hspace,
    bind_of_ok (parseConfigValue_display hp.value hr), String.ofList_toList]
  rfl

theorem suffix_parseConfigValue : Suffix parseConfigValue := by
  have hvar : Suffix parseEnvVar := (eats_char _).suffix.preceded eats_parseIdentifier.suffix
  have hseparator : Suffix defaultSeparator :=
    suffix_multispace0.bind fun _ => (suffix_tag _).bind fun _ => suffix_multispace0.bind fun _ => suffix_pure _
  refine Suffix.alt ?_ (Suffix.alt ?_ (Suffix.alt ?_ (Suffix.alt ?_ ?_)))
  · exact hvar.bind fun _ => (hseparator.preceded (eats_between _).suffix).bind fun _ => suffix_pure _
  · exact hvar.bind fun _ => suffix_pure _
  · exact (eats_between _).suffix.bind fun _ => suffix_pure _
  · exact ((suffix_tag _).alt (suffix_tag _)).bind fun _ => suffix_pure _
  · refine (eats_takeWhile1 _).suffix.bind fun s => ?_
    split
    · exact suffix_pure _
    · exact suffix_fail

/-- A property takes some text. -/
theorem eats_parseConfigProperty : Eats parseConfigProperty :=
  suffix_multispace0.bind_eats fun _ => eats_parseIdentifier.bind fun _ => suffix_multispace0.bind fun _ =>
    (eats_char _).suffix.bind fun _ => suffix_multispace0.bind fun _ => suffix_parseConfigValue.bind fun _ => suffix_pure _

/-! ## Lines -/

/-- The lines of properties, and the bracket after them. -/
def propertyLines (ps : List ConfigProperty) : List Char :=
  ps.flatMap (fun p => "  ".toList ++ (p.display ++ ['\n'])) ++ ['\x7d']

/-- The lines of properties, one after the other. -/
theorem propertyLines_cons (p : ConfigProperty) (ps : List ConfigProperty) :
    '\n' :: propertyLines (p :: ps) = ['\n', ' ', ' '] ++ (p.display ++ '\n' :: propertyLines ps) := by
  simp [propertyLines]

/-- What follows blanks and is no blank is left of a text without them. -/
theorem dropWhile_blanks {blanks l : List Char} (hblanks : ∀ c ∈ blanks, isMultispace c = true) (h : NoBlank l) :
    (blanks ++ l).dropWhile isMultispace = l := (takeWhile_append_of hblanks h).2

/-- A property starts with no blank. -/
theorem noBlank_displayProperty {p : ConfigProperty} (hp : ParsedProperty p) (r : List Char) : NoBlank (p.display ++ r) := by
  rw [ConfigProperty.display, List.append_assoc]
  exact hp.key.noBlank _

/-- A value ends at the end of its line: what follows is the next key or the closing bracket. -/
theorem endsValue_lines {ps : List ConfigProperty} (hps : ∀ p ∈ ps, ParsedProperty p) : EndsValue ('\n' :: propertyLines ps) where
  line := rfl
  noDefault := by
    cases ps with
    | nil => decide
    | cons p ps =>
      have hp := hps p List.mem_cons_self
      have hdrop := @dropWhile_blanks ['\n', ' ', ' '] _ (Text.forall_mem_of_all (by decide)) (noBlank_displayProperty hp ('\n' :: propertyLines ps))
      rw [propertyLines_cons, hdrop, ConfigProperty.display]
      obtain ⟨a, l, hkey, ha, -⟩ := hp.key
      rw [hkey]
      intro h
      have hbar : '|' = a := (List.cons_prefix_cons.mp h).1
      rw [← hbar] at ha
      cases ha

/-- No property starts at the closing bracket. -/
theorem parseConfigProperty_bracket : parseConfigProperty ['\n', '\x7d'] = .error .error := by
  have hblank : multispace0 ['\n', '\x7d'] = .ok (['\n'], ['\x7d']) := rfl
  have hkey : parseIdentifier ['\x7d'] = .error .error := parseIdentifier_of_not (by rintro _ _ ⟨⟩; decide)
  rw [parseConfigProperty, bind_of_ok hblank, bind_of_error hkey]

/-- One property is read, and the repetition goes on at the end of its line. -/
theorem many0_property {p : ConfigProperty} {ps : List ConfigProperty} (hp : ParsedProperty p) (hps : ∀ q ∈ ps, ParsedProperty q)
    {blanks : List Char} (hblanks : ∀ c ∈ blanks, isMultispace c = true) :
    many0 parseConfigProperty (blanks ++ (p.display ++ '\n' :: propertyLines ps)) =
      (do let as ← many0 parseConfigProperty; pure (p :: as) : Parser (List ConfigProperty)) ('\n' :: propertyLines ps) := by
  have hread := parseConfigProperty_display hp hblanks (endsValue_lines hps)
  exact many0_of_ok eats_parseConfigProperty.suffix hread (eats_parseConfigProperty _ _ _ hread).2

/-- From the end of a line on, the properties are read one by one, to the closing bracket. -/
theorem many0_properties {ps : List ConfigProperty} (hps : ∀ p ∈ ps, ParsedProperty p) :
    many0 parseConfigProperty ('\n' :: propertyLines ps) = .ok (ps, ['\n', '\x7d']) := by
  induction ps with
  | nil => exact many0_of_error parseConfigProperty_bracket
  | cons p ps ih =>
    obtain ⟨hp, hps⟩ := List.forall_mem_cons.mp hps
    rw [propertyLines_cons, many0_property hp hps (Text.forall_mem_of_all (by decide)), bind_of_ok (ih hps)]
    rfl

/-! ## Configurations -/

/-- What stands after the opening bracket. -/
def configBody (name : String) : Parser Config := do
  let _ ← multispace0
  let properties ← many0 parseConfigProperty
  let _ ← multispace0
  let _ ← char '\x7d'
  let _ ← multispace0
  pure { name, properties }

/-- The lines of a config are read back. -/
theorem configBody_lines (name : String) {ps : List ConfigProperty} (hps : ∀ p ∈ ps, ParsedProperty p) :
    configBody name ('\n' :: propertyLines ps) = .ok ({ name, properties := ps }, []) := by
  cases ps with
  | nil =>
    have hblank : multispace0 ('\n' :: propertyLines []) = .ok (['\n'], ['\x7d']) := rfl
    have hkey : parseIdentifier ['\x7d'] = .error .error := parseIdentifier_of_not (by rintro _ _ ⟨⟩; decide)
    have hproperty : parseConfigProperty ['\x7d'] = .error .error := by
      have hnone : multispace0 ['\x7d'] = .ok ([], ['\x7d']) := rfl
      rw [parseConfigProperty, bind_of_ok hnone, bind_of_error hkey]
    rw [configBody, bind_of_ok hblank, bind_of_ok (many0_of_error hproperty)]
    rfl
  | cons p ps =>
    obtain ⟨hp, hps⟩ := List.forall_mem_cons.mp hps
    have hblank := @multispace0_append ['\n', ' ', ' '] _ (Text.forall_mem_of_all (by decide))
      (noBlank_displayProperty hp ('\n' :: propertyLines ps))
    have hproperties : many0 parseConfigProperty (p.display ++ '\n' :: propertyLines ps) = .ok (p :: ps, ['\n', '\x7d']) := by
      have hfirst := @many0_property p ps hp hps [] nofun
      rw [List.nil_append] at hfirst
      rw [hfirst, bind_of_ok (many0_properties hps)]
      rfl
    rw [propertyLines_cons, configBody, bind_of_ok hblank, bind_of_ok hproperties]
    rfl

/-- A printed configuration is read back to its end. -/
theorem parseConfig_display {c : Config} (hc : ParsedConfig c) : parseConfig c.display = .ok (c, []) := by
  have htext : c.display = "config".toList ++ ([' '] ++ (c.name.toList ++ ([' '] ++ '\x7b' :: '\n' :: propertyLines c.properties))) := by
    have hhead : ∀ x : List Char, "config ".toList ++ x = "config".toList ++ ([' '] ++ x) := by
      intro x
      rw [← List.append_assoc]
      rfl
    exact hhead _
  have hname := @multispace0_append [' '] _ (Text.forall_mem_of_all (by decide))
    (hc.name.noBlank ([' '] ++ '\x7b' :: '\n' :: propertyLines c.properties))
  have hend : EndsIdent ([' '] ++ '\x7b' :: '\n' :: propertyLines c.properties) := endsIdent_cons (by decide) _
  have hopen := @multispace0_append [' '] ('\x7b' :: '\n' :: propertyLines c.properties) (Text.forall_mem_of_all (by decide))
    (noBlank_cons (by decide) _)
  rw [htext, parseConfig, bind_of_ok (tag_append ..), bind_of_ok hname, bind_of_ok (parseIdentifier_append hc.name hend),
    bind_of_ok hopen, bind_of_ok (char_self ..), String.ofList_toList]
  exact configBody_lines c.name hc.properties

/-- Whatever the parser makes of a text, what is printed of it is read back as the same configuration, to its end. -/
theorem config_round_trip {l r : List Char} {c : Config} (h : parseConfig l = .ok (c, r)) : parseConfig c.display = .ok (c, []) :=
  parseConfig_display (yields_parseConfig l c r h)

/-- A variable without a default before a key, and a boolean directly before the bracket. -/
theorem config_round_trip_pg :
    parseConfig (Config.display { name := "pg", properties := [⟨"host", .envVar "HOST" none⟩, ⟨"ssl", .boolean true⟩] }) =
      .ok ({ name := "pg", properties := [⟨"host", .envVar "HOST" none⟩, ⟨"ssl", .boolean true⟩] }, []) :=
  config_round_trip (l := "config pg\x7bhost:$HOST ssl:true\x7d".toList) (r := []) (by decide +kernel)

end Parser
end WebPipe
