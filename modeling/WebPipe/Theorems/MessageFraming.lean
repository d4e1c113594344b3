import WebPipe.Debugger.Wire
import WebPipe.Lib.Utf8

/-!
# Messages are read as they are sent

A message is framed by its length in bytes. Messages in a row are read back one by one, wherever the bytes are cut on the way, and
nothing is left.
-/

namespace WebPipe
namespace Wire

/-- A message: a text that fits in memory. -/
structure Message where
  text : String
  fits : text.utf8ByteSize < 2 ^ 63

/-! ## Bytes of a text -/

/-- An ASCII character is one byte. -/
theorem utf8EncodeChar_ascii {c : Char} (h : c.toNat < 128) : String.utf8EncodeChar c = [UInt8.ofNat c.toNat] := by
  have hle : c.val.toNat ≤ 127 := by
    have : c.val.toNat = c.toNat := rfl
    omega
  simp only [String.utf8EncodeChar, hle, if_true]
  rfl

/-- ASCII text is written as its bytes. -/
theorem utf8Bytes_ascii {s : String} (h : ∀ c ∈ s.toList, c.toNat < 128) : Framing.utf8Bytes s = Text.asciiBytes s.toList := by
  unfold Framing.utf8Bytes Text.asciiBytes
  rw [List.map_eq_flatMap]
  refine List.flatMap_congr fun c hc => ?_
  rw [utf8EncodeChar_ascii (h c hc)]

/-- That byte is read as the character. -/
theorem byteChar_ascii {c : Char} (h : c.toNat < 128) : byteChar (UInt8.ofNat c.toNat) = c := by
  have hbyte : (UInt8.ofNat c.toNat).toNat = c.toNat := by
    rw [UInt8.toNat_ofNat']
    omega
  rw [byteChar, hbyte, Char.ofNat_toNat]

theorem toByteArray_utf8Bytes (s : String) : (Framing.utf8Bytes s).toByteArray = s.toByteArray := by
  rw [← String.utf8Encode_toList]
  rfl

/-- The length of a text in bytes. -/
theorem utf8Bytes_length (s : String) : (Framing.utf8Bytes s).length = s.utf8ByteSize := by
  rw [← String.size_toByteArray, ← toByteArray_utf8Bytes, List.size_toByteArray]

/-- The bytes of a text are decoded as the text. -/
theorem fromUTF8_utf8Bytes (s : String) : String.fromUTF8? (Framing.utf8Bytes s).toByteArray = some s := by
  rw [toByteArray_utf8Bytes, String.fromUTF8?, dif_pos s.isValidUTF8]
  rfl

/-! ## Headers -/

/-- The headers of a message of a number of bytes. -/
def header (n : Nat) : String := s!"Content-Length: {n}\r\n\r\n"

/-- The characters of a header. -/
theorem header_toList (n : Nat) : (header n).toList = "Content-Length: ".toList ++ n.repr.toList ++ headersEnd := by
  have htext : header n = "Content-Length: " ++ n.repr ++ "\r\n\r\n" := rfl
  rw [htext, String.toList_append, String.toList_append]
  rfl

/-- A header is ASCII. -/
theorem header_ascii (n : Nat) : ∀ c ∈ (header n).toList, c.toNat < 128 := by
  intro c hc
  rw [header_toList, List.mem_append, List.mem_append] at hc
  rcases hc with (hc | hc) | hc
  · have hlabel : ∀ c ∈ "Content-Length: ".toList, decide (c.toNat < 128) = true := Text.forall_mem_of_all (by decide)
    exact of_decide_eq_true (hlabel c hc)
  · have hdigit := Text.isDigit_of_mem_repr hc
    simp only [Text.isDigit, Bool.and_eq_true, decide_eq_true_eq] at hdigit
    omega
  · have hend : ∀ c ∈ headersEnd, decide (c.toNat < 128) = true := Text.forall_mem_of_all (by decide)
    exact of_decide_eq_true (hend c hc)

/-- The headers end where they are first followed by an empty line. -/
def EndsOnce (l : List Char) : Prop := headersEnd <:+ l ∧ ∀ x y, l = x ++ y → headersEnd <:+ x → y = []

/-- The headers of a message have two line breaks, both at their end. -/
theorem header_endsOnce (n : Nat) : EndsOnce (header n).toList := by
  have hcount : (header n).toList.count '\n' = 2 := by
    have hlabel : "Content-Length: ".toList.count '\n' = 0 := by decide
    have hdigits : n.repr.toList.count '\n' = 0 := List.count_eq_zero.mpr (Text.not_mem_repr (by decide))
    rw [header_toList, List.count_append, List.count_append, hlabel, hdigits]
    rfl
  have hend : headersEnd <:+ (header n).toList := ⟨_, (header_toList n).symm⟩
  refine ⟨hend, ?_⟩
  rintro x y hxy ⟨t, rfl⟩
  by_contra hy
  -- a third line break: what follows the second ends in one
  have hlast : '\n' ∈ y := by
    have hsame := congrArg List.getLast? (hxy.symm.trans (header_toList n))
    rw [List.getLast?_append_of_ne_nil _ hy, List.getLast?_append_of_ne_nil _ (by decide)] at hsame
    exact List.mem_of_getLast? hsame
  have hmore : 0 < y.count '\n' := List.count_pos_iff.mpr hlast
  have htwo : headersEnd.count '\n' = 2 := rfl
  rw [hxy, List.count_append, List.count_append, htwo] at hcount
  omega

/-- The headers are taken byte by byte to their end. -/
theorem readHeaders_append (front : List Char) {back : List Char} (hback : back ≠ []) (hascii : ∀ c ∈ back, c.toNat < 128)
    (hends : EndsOnce (front ++ back)) {reader : List (List UInt8)} {r : List UInt8}
    (hreader : reader.flatten = Text.asciiBytes back ++ r) {fuel : Nat} (hfuel : back.length ≤ fuel) :
    ∃ rest, readHeaders fuel front reader = .ok (front ++ back, rest) ∧ rest.flatten = r := by
  induction back generalizing front reader fuel with
  | nil => exact absurd rfl hback
  | cons c back ih =>
    obtain ⟨fuel, rfl⟩ : ∃ n, fuel = n + 1 := ⟨fuel - 1, by simp at hfuel; omega⟩
    have hbytes : reader.flatten = [UInt8.ofNat c.toNat] ++ (Text.asciiBytes back ++ r) := hreader
    obtain ⟨rest, hread, hrest⟩ := Segments.readExact_append hbytes
    have hchar : [UInt8.ofNat c.toNat].map byteChar = [c] := by
      rw [List.map_singleton, byteChar_ascii (hascii c List.mem_cons_self)]
    have hsplit : front ++ c :: back = (front ++ [c]) ++ back := by simp
    rw [List.length_singleton] at hread
    rw [readHeaders, hread]
    dsimp only
    rw [hchar]
    by_cases hdone : headersEnd <:+ front ++ [c]
    · have hnil := hends.2 _ _ hsplit hdone
      rw [hnil] at hrest ⊢
      rw [if_pos (List.isSuffixOf_iff_suffix.mpr hdone)]
      exact ⟨rest, rfl, hrest⟩
    · have hmore : back ≠ [] := by
        rintro rfl
        exact hdone hends.1
      rw [if_neg fun h => hdone (List.isSuffixOf_iff_suffix.mp h), hsplit]
      rw [hsplit] at hends
      exact ih _ hmore (fun d hd => hascii d (List.mem_cons_of_mem _ hd)) hends hrest (by simp at hfuel; omega)

theorem stripReturn_append (l : List Char) : stripReturn (l ++ ['\r']) = l := by simp [stripReturn]

/-- The line of the headers, and an empty one. -/
theorem lines_header (n : Nat) : lines (header n).toList = ["Content-Length: ".toList ++ n.repr.toList, []] := by
  have hlabel : '\n' ∉ "Content-Length: ".toList := by decide
  have hdigits : '\n' ∉ n.repr.toList := Text.not_mem_repr (by decide)
  have hfirst : '\n' ∉ ("Content-Length: ".toList ++ n.repr.toList) ++ ['\r'] := by
    simp only [List.mem_append, not_or]
    exact ⟨⟨hlabel, hdigits⟩, by decide⟩
  have hsplit : (header n).toList = (("Content-Length: ".toList ++ n.repr.toList) ++ ['\r']) ++ '\n' :: (['\r'] ++ '\n' :: []) := by
    rw [header_toList]
    simp only [List.append_assoc]
    rfl
  have hsecond : (['\r'] ++ '\n' :: []).splitOn '\n' = [['\r'], []] := by
    rw [splitOn_append_cons (by decide), List.splitOn_nil]
  have hempty : stripReturn ['\r'] = [] := rfl
  rw [lines, hsplit, splitOn_append_cons hfirst, hsecond]
  simp only [List.dropLast_cons_cons, List.dropLast_singleton, List.map_cons, List.map_nil, stripReturn_append, hempty]
  rfl

/-- A written number is trimmed of the blank before it. -/
theorem trimChars_repr (n : Nat) : Text.trimChars ([' '] ++ n.repr.toList) = n.repr.toList :=
  Text.trimChars_append (Text.forall_mem_of_all (by decide)) (Text.isDigits_repr n).trimChars

/-- The length in the headers is the one that was written. -/
theorem contentLength_header {n : Nat} (hn : n < 2 ^ 64) : contentLength (header n).toList = some n := by
  have hfind : (lines (header n).toList).find? (fun line => "Content-Length:".toList.isPrefixOf line) =
      some ("Content-Length: ".toList ++ n.repr.toList) := by
    rw [lines_header, List.find?_cons_of_pos]
    exact List.isPrefixOf_iff_prefix.mpr ⟨[' '] ++ n.repr.toList, rfl⟩
  have hparts : ("Content-Length: ".toList ++ n.repr.toList).splitOn ':' = ["Content-Length".toList, [' '] ++ n.repr.toList] := by
    have hvalue : ':' ∉ [' '] ++ n.repr.toList := by
      simp only [List.mem_append, not_or]
      exact ⟨by decide, Text.not_mem_repr (by decide)⟩
    have hsplit : "Content-Length: ".toList ++ n.repr.toList = "Content-Length".toList ++ ':' :: ([' '] ++ n.repr.toList) := rfl
    rw [hsplit, splitOn_append_cons (by decide), splitOn_of_not_mem hvalue]
  simp only [contentLength, hfind, Option.bind_eq_bind, Option.bind_some, hparts, List.getElem?_cons_succ, List.getElem?_cons_zero,
    trimChars_repr, String.ofList_toList, Text.parseUnsigned_repr hn]

/-! ## Messages -/

/-- What is sent for a message. -/
def frame (msg : String) : List UInt8 := Framing.utf8Bytes (header msg.utf8ByteSize) ++ Framing.utf8Bytes msg

/-- What is sent for messages in a row. -/
def stream (msgs : List String) : List UInt8 := msgs.flatMap frame

/-- Messages are written one after the other. -/
theorem sendMessages_eq (written : List UInt8) (msgs : List String) : sendMessages written msgs = .ok (written ++ stream msgs) := by
  induction msgs generalizing written with
  | nil => simp [sendMessages, stream, pure, Except.pure]
  | cons msg msgs ih =>
    have hsend : sendMessage (some written) msg = .ok (written ++ frame msg) := by
      rw [sendMessage, frame, List.append_assoc]
      rfl
    have hrest := ih (written ++ frame msg)
    rw [sendMessages] at hrest ⊢
    rw [List.foldlM_cons, hsend]
    change List.foldlM _ (written ++ frame msg) msgs = _
    rw [hrest, stream, stream, List.flatMap_cons, List.append_assoc]

/-- A message is read from the start of the bytes, and the bytes after it are left. -/
theorem readMessage_frame (m : Message) {reader : List (List UInt8)} {r : List UInt8} (hreader : reader.flatten = frame m.text ++ r) :
    ∃ rest, readMessage reader = .ok (m.text, rest) ∧ rest.flatten = r := by
  have hascii := header_ascii m.text.utf8ByteSize
  have hne : (header m.text.utf8ByteSize).toList ≠ [] := by
    rw [header_toList]
    simp [headersEnd]
  have hbytes : reader.flatten =
      Text.asciiBytes (header m.text.utf8ByteSize).toList ++ (Framing.utf8Bytes m.text ++ r) := by
    rw [hreader, frame, utf8Bytes_ascii hascii, List.append_assoc]
  have hfuel : (header m.text.utf8ByteSize).toList.length ≤ reader.flatten.length + 1 := by
    rw [hbytes, List.length_append, Text.asciiBytes, List.length_map]
    omega
  obtain ⟨body, hheaders, hbody⟩ := readHeaders_append [] hne hascii (header_endsOnce _) hbytes hfuel
  obtain ⟨rest, hread, hrest⟩ := Segments.readExact_append hbody
  have hlength : contentLength (header m.text.utf8ByteSize).toList = some m.text.utf8ByteSize :=
    contentLength_header (lt_trans m.fits (by decide))
  rw [utf8Bytes_length] at hread
  refine ⟨rest, ?_, hrest⟩
  rw [List.nil_append] at hheaders
  rw [readMessage, hheaders]
  simp only [bind, Except.bind, hlength, hread, fromUTF8_utf8Bytes]

/-- At the end of the bytes there is no message. -/
theorem readMessage_end {reader : List (List UInt8)} (h : reader.flatten = []) :
    readMessage reader = .error (debuggerError "Failed to read: early eof") := by
  have hnone : Segments.readExact 1 reader = none := Segments.readExact_eq_none_iff.mpr (by simp [h])
  rw [readMessage, readHeaders, hnone]
  rfl

/-- Messages that are sent in a row are read back in order, wherever the bytes are cut; nothing is left, and no further message is
read. -/
theorem messages_round_trip (msgs : List Message) :
    sendMessages [] (msgs.map Message.text) = .ok (stream (msgs.map Message.text)) ∧
      ∀ reader : List (List UInt8), reader.flatten = stream (msgs.map Message.text) →
        ∃ rest, readMessages msgs.length reader = .ok (msgs.map Message.text, rest) ∧ rest.flatten = [] ∧
          readMessage rest = .error (debuggerError "Failed to read: early eof") := by
  refine ⟨sendMessages_eq [] _, ?_⟩
  induction msgs with
  | nil =>
    intro reader hreader
    exact ⟨reader, rfl, hreader, readMessage_end hreader⟩
  | cons m msgs ih =>
    intro reader hreader
    rw [List.map_cons, stream, List.flatMap_cons] at hreader
    obtain ⟨reader', hread, hreader'⟩ := readMessage_frame m hreader
    obtain ⟨rest, hreads, hrest, hend⟩ := ih reader' hreader'
    refine ⟨rest, ?_, hrest, hend⟩
    rw [List.length_cons, readMessages, hread]
    simp only [bind, Except.bind, hreads, List.map_cons]
    rfl

/-- Two messages that are not ASCII, cut inside the headers. -/
theorem messages_round_trip_two : ∃ rest,
    readMessages 2 [(stream ["é", "日本"]).take 5, (stream ["é", "日本"]).drop 5] = .ok (["é", "日本"], rest) ∧ rest.flatten = [] ∧
      readMessage rest = .error (debuggerError "Failed to read: early eof") :=
  (messages_round_trip [⟨"é", by decide⟩, ⟨"日本", by decide⟩]).2 _ (by simp)

end Wire
end WebPipe
