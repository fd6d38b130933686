/-
The key of a handshake request.  The code searches the whole text for the
header as browsers write it; the fields of the request are what HTTP says they
are.  Both give the same key exactly on the requests described here.
-/
import Mathlib.Data.List.DropRight
import Mathlib.Data.List.Infix
import Mathlib.Data.List.TakeWhile
import VoiceServer.WebSocketSession

namespace VoiceServer

/-- The first position at which a pattern stands. -/
def position (text pattern : List UInt8) : Option Nat :=
  text.tails.findIdx? pattern.isPrefixOf

theorem find_eq (text pattern : List UInt8) (pos : Nat) :
    find text pattern pos =
      (position (text.drop pos) pattern).map (pos + ·) :=
  rfl

theorem position_nil {pattern : List UInt8} (hpattern : pattern ≠ []) :
    position [] pattern = none := by
  cases pattern with
  | nil => exact absurd rfl hpattern
  | cons char rest => rfl

theorem position_cons (char : UInt8) (text pattern : List UInt8) :
    position (char :: text) pattern =
      if pattern <+: char :: text then some 0
      else (position text pattern).map (· + 1) := by
  rw [position, List.tails_cons, List.findIdx?_cons]
  by_cases hpre : pattern <+: char :: text
  · rw [if_pos hpre, if_pos (List.isPrefixOf_iff_prefix.2 hpre)]
  · rw [if_neg hpre, if_neg (mt List.isPrefixOf_iff_prefix.1 hpre)]
    rfl

theorem position_eq_none_iff {text pattern : List UInt8} :
    position text pattern = none ↔ ¬ pattern <:+: text := by
  rw [position, List.findIdx?_eq_none_iff, List.infix_iff_prefix_suffix]
  constructor
  · rintro hnone ⟨suffix, hpre, hsuffix⟩
    have hfalse := hnone suffix ((List.mem_tails _ _).2 hsuffix)
    rw [List.isPrefixOf_iff_prefix.2 hpre] at hfalse
    exact Bool.noConfusion hfalse
  · intro hnone suffix hsuffix
    refine Bool.eq_false_iff.2 fun htrue => hnone ⟨suffix, ?_, ?_⟩
    · exact List.isPrefixOf_iff_prefix.1 htrue
    · exact (List.mem_tails _ _).1 hsuffix

/-- The text splits at the first place of the pattern. -/
structure Split (text pattern front rest : List UInt8) : Prop where
  whole : text = front ++ pattern ++ rest
  first : ∀ other behind, text = other ++ pattern ++ behind →
    front.length ≤ other.length

theorem position_eq_some_iff {text pattern : List UInt8} {i : Nat} :
    position text pattern = some i ↔
      ∃ front rest, Split text pattern front rest ∧ front.length = i := by
  rw [position, List.findIdx?_eq_some_iff_getElem]
  simp only [List.getElem_tails, List.length_tails, List.isPrefixOf_iff_prefix]
  constructor
  · rintro ⟨hi, ⟨rest, hrest⟩, hbefore⟩
    have hlength : (text.take i).length = i := by
      rw [List.length_take]
      omega
    refine ⟨text.take i, rest, ⟨?_, ?_⟩, hlength⟩
    · rw [List.append_assoc, hrest, List.take_append_drop]
    · intro other behind hother
      rw [hlength]
      by_contra hlt
      refine hbefore other.length (by omega) ⟨behind, ?_⟩
      rw [hother, List.append_assoc, List.drop_left]
  · rintro ⟨front, rest, hsplit, rfl⟩
    refine ⟨?_, ⟨rest, ?_⟩, ?_⟩
    · rw [hsplit.whole]
      simp only [List.length_append]
      omega
    · rw [hsplit.whole, List.append_assoc, List.drop_left]
    · rintro j hj ⟨behind, hbehind⟩
      have htake : text = text.take j ++ pattern ++ behind := by
        rw [List.append_assoc, hbehind, List.take_append_drop]
      have hle := hsplit.first _ _ htake
      rw [List.length_take] at hle
      omega

/-- A pattern without a character does not reach over it. -/
theorem prefix_append_cons_iff {pattern : List UInt8} {mark : UInt8}
    (hmark : mark ∉ pattern) (line rest : List UInt8) :
    pattern <+: line ++ mark :: rest ↔ pattern <+: line := by
  constructor
  · intro hpre
    rcases List.prefix_or_prefix_of_prefix hpre
      (List.prefix_append line (mark :: rest)) with hline | ⟨more, rfl⟩
    · exact hline
    · cases more with
      | nil => rw [List.append_nil]
      | cons char more =>
          rw [List.prefix_append_right_inj] at hpre
          obtain ⟨rfl, -⟩ := List.cons_prefix_cons.1 hpre
          exact absurd (by simp) hmark
  · exact fun hpre => hpre.trans (List.prefix_append _ _)

/-- A pattern without a character stands before it or behind it. -/
theorem position_append_cons {pattern : List UInt8} {mark : UInt8}
    (hpattern : pattern ≠ []) (hmark : mark ∉ pattern)
    (line rest : List UInt8) :
    position (line ++ mark :: rest) pattern =
      (position line pattern).or
        ((position rest pattern).map (· + (line.length + 1))) := by
  induction line with
  | nil =>
      have hpre : ¬ pattern <+: mark :: rest := by
        have hnil := prefix_append_cons_iff hmark [] rest
        rw [List.nil_append, List.prefix_nil] at hnil
        exact mt hnil.1 hpattern
      rw [List.nil_append, position_cons, if_neg hpre, position_nil hpattern]
      rfl
  | cons char line ih =>
      have hover := prefix_append_cons_iff hmark (char :: line) rest
      rw [List.cons_append] at hover
      rw [List.cons_append, position_cons, position_cons, ih]
      by_cases hpre : pattern <+: char :: line
      · rw [if_pos hpre, if_pos (hover.2 hpre)]
        rfl
      · rw [if_neg hpre, if_neg (mt hover.1 hpre), Option.map_or,
          Option.map_map]
        rfl

/-- The end of a line. -/
theorem position_mark {mark : UInt8} {line : List UInt8} (hline : mark ∉ line)
    (more rest : List UInt8) :
    position (line ++ (mark :: more ++ rest)) (mark :: more) =
      some line.length := by
  induction line with
  | nil =>
      rw [List.nil_append, List.cons_append, position_cons, if_pos]
      · rfl
      · exact List.prefix_append (mark :: more) rest
  | cons char line ih =>
      rw [List.mem_cons, not_or] at hline
      rw [List.cons_append, position_cons, if_neg, ih hline.2]
      · rfl
      · exact fun hpre => hline.1 (List.cons_prefix_cons.1 hpre).1

def keyHeader : List UInt8 :=
  ascii "Sec-WebSocket-Key: "

def lineBreak : List UInt8 :=
  [13, 10]

def endLines (lines : List (List UInt8)) : List UInt8 :=
  lines.flatMap (· ++ lineBreak)

theorem ascii_keyHeader : ascii "Sec-WebSocket-Key: " = keyHeader :=
  rfl

theorem ascii_lineBreak : ascii "\r\n" = lineBreak := by
  decide

theorem keyHeader_bytes : keyHeader =
    [83, 101, 99, 45, 87, 101, 98, 83, 111, 99, 107, 101, 116, 45, 75, 101,
      121, 58, 32] := by
  decide

theorem keyHeader_eq : keyHeader = ascii "Sec-WebSocket-Key" ++ [58, 32] := by
  decide

/-- What stands behind the key header's text in a line. -/
def keyIn (line : List UInt8) : Option (List UInt8) :=
  (position line keyHeader).map fun i => line.drop (i + keyHeader.length)

theorem position_keyHeader (line rest : List UInt8) :
    position (line ++ lineBreak ++ rest) keyHeader =
      (position line keyHeader).or
        ((position rest keyHeader).map (· + (line.length + 2))) := by
  have hcr : (13 : UInt8) ∉ keyHeader := by
    rw [keyHeader_bytes]
    decide
  have hlf : (10 : UInt8) ∉ keyHeader := by
    rw [keyHeader_bytes]
    decide
  have hne : keyHeader ≠ [] := by
    rw [keyHeader_bytes]
    exact List.cons_ne_nil _ _
  have hrest := position_append_cons hne hlf [] rest
  rw [position_nil hne, Option.none_or, List.nil_append] at hrest
  rw [List.append_assoc]
  refine (position_append_cons hne hcr line (10 :: rest)).trans ?_
  rw [hrest, Option.map_map]
  congr 2
  funext i
  simp only [Function.comp_apply, List.length_nil]
  omega

theorem extractWebsocketKey_eq (request : List UInt8) :
    extractWebsocketKey request =
      ((position request keyHeader).bind fun keyPos =>
        (position (request.drop keyPos) lineBreak).map fun size =>
          (request.drop (keyPos + keyHeader.length)).take
            (size - keyHeader.length)).getD [] := by
  simp only [extractWebsocketKey, find_eq, List.drop_zero, ascii_keyHeader,
    ascii_lineBreak]
  cases hkey : position request keyHeader with
  | none => rfl
  | some keyPos =>
      simp only [Option.map_some, Option.bind_some, Nat.zero_add]
      cases hend : position (request.drop keyPos) lineBreak with
      | none => rfl
      | some size =>
          simp only [Option.map_some, Option.getD_some]
          rw [Nat.add_sub_add_left]

/-- One line is searched, then the rest of the text. -/
theorem extractWebsocketKey_line {line : List UInt8} (hline : 13 ∉ line)
    (rest : List UInt8) :
    extractWebsocketKey (line ++ lineBreak ++ rest) =
      (keyIn line).getD (extractWebsocketKey rest) := by
  rw [extractWebsocketKey_eq, extractWebsocketKey_eq rest, position_keyHeader,
    keyIn]
  cases hkey : position line keyHeader with
  | none =>
      rw [Option.none_or, Option.map_none, Option.getD_none]
      cases hrest : position rest keyHeader with
      | none => rfl
      | some keyPos =>
          have hlength : (line ++ lineBreak).length = line.length + 2 :=
            List.length_append
          have hdrop : ∀ skip, (line ++ lineBreak ++ rest).drop
              (skip + (line.length + 2)) = rest.drop skip := by
            intro skip
            rw [Nat.add_comm, ← hlength, List.drop_length_add_append]
          simp only [Option.map_some, Option.bind_some, hdrop]
          rw [Nat.add_right_comm, hdrop]
  | some keyPos =>
      obtain ⟨front, behind, hsplit, rfl⟩ := position_eq_some_iff.1 hkey
      have hle : front.length + keyHeader.length ≤ line.length := by
        rw [hsplit.whole]
        simp only [List.length_append]
        omega
      have hend : position ((line ++ lineBreak ++ rest).drop front.length)
          lineBreak = some (line.length - front.length) := by
        rw [List.append_assoc, List.drop_append_of_le_length (by omega),
          ← List.length_drop]
        exact position_mark (fun hmem => hline (List.mem_of_mem_drop hmem))
          [10] rest
      rw [Option.some_or, Option.bind_some, hend, Option.map_some,
        Option.map_some, Option.getD_some, Option.getD_some, List.append_assoc,
        List.drop_append_of_le_length hle, List.take_append_of_le_length,
        List.take_of_length_le]
      all_goals
        rw [List.length_drop]
        omega

theorem extractWebsocketKey_lineBreak :
    extractWebsocketKey lineBreak = [] := by
  decide

/-- The code's answer is what stands behind the text in the first line that
has it. -/
theorem extractWebsocketKey_endLines {lines : List (List UInt8)}
    (hlines : ∀ line ∈ lines, 13 ∉ line) :
    extractWebsocketKey (endLines lines ++ lineBreak) =
      (lines.findSome? keyIn).getD [] := by
  induction lines with
  | nil => exact extractWebsocketKey_lineBreak
  | cons line lines ih =>
      rw [List.forall_mem_cons] at hlines
      rw [endLines, List.flatMap_cons, List.append_assoc,
        extractWebsocketKey_line hlines.1, List.findSome?_cons]
      cases keyIn line with
      | none => exact ih hlines.2
      | some key => rfl

/-- A line has the header's text, and the value behind its first place. -/
def Repeats (line value : List UInt8) : Prop :=
  ∃ front, Split line keyHeader front value

theorem keyIn_eq_none_iff {line : List UInt8} :
    keyIn line = none ↔ ¬ keyHeader <:+: line := by
  rw [keyIn, Option.map_eq_none_iff, position_eq_none_iff]

theorem keyIn_eq_some_iff {line value : List UInt8} :
    keyIn line = some value ↔ Repeats line value := by
  have hbehind : ∀ {front rest}, Split line keyHeader front rest →
      line.drop (front.length + keyHeader.length) = rest := by
    intro front rest hsplit
    rw [hsplit.whole, ← List.length_append, List.drop_left]
  rw [keyIn, Option.map_eq_some_iff]
  constructor
  · rintro ⟨i, hi, rfl⟩
    obtain ⟨front, rest, hsplit, rfl⟩ := position_eq_some_iff.1 hi
    exact ⟨front, (hbehind hsplit).symm ▸ hsplit⟩
  · rintro ⟨front, hsplit⟩
    exact ⟨front.length, position_eq_some_iff.2 ⟨front, value, hsplit, rfl⟩,
      hbehind hsplit⟩

def isBlank (char : UInt8) : Bool :=
  char == 32 || char == 9

/-- A field without the blanks around it. -/
def trim (field : List UInt8) : List UInt8 :=
  (field.dropWhile isBlank).rdropWhile isBlank

theorem trim_spec (field : List UInt8) :
    ∃ left right, field = left ++ trim field ++ right ∧
      (∀ char ∈ left, isBlank char) ∧ ∀ char ∈ right, isBlank char := by
  refine ⟨field.takeWhile isBlank,
    (field.dropWhile isBlank).rtakeWhile isBlank, ?_, ?_, ?_⟩
  · rw [List.append_assoc, trim, List.rdropWhile_append_rtakeWhile,
      List.takeWhile_append_dropWhile]
  · exact fun char hchar => List.mem_takeWhile_imp hchar
  · exact fun char hchar => List.mem_rtakeWhile_imp hchar

/-- What stands before the value is blank. -/
theorem isBlank_of_trim {front value : List UInt8}
    (hvalue : trim (front ++ value) = value) :
    ∀ char ∈ front, isBlank char := by
  obtain ⟨left, right, hfield, hleft, hright⟩ := trim_spec (front ++ value)
  have hcount := congrArg (List.countP fun char => !isBlank char) hfield
  have hblank : ∀ {blanks : List UInt8}, (∀ char ∈ blanks, isBlank char) →
      blanks.countP (fun char => !isBlank char) = 0 := by
    intro blanks hblanks
    exact List.countP_eq_zero.2 fun char hchar => by simp [hblanks char hchar]
  rw [hvalue, List.countP_append, List.countP_append, List.countP_append,
    hblank hleft, hblank hright] at hcount
  have hfront : front.countP (fun char => !isBlank char) = 0 := by omega
  intro char hchar
  simpa using List.countP_eq_zero.1 hfront char hchar

/-- Latin letters in lower case. -/
def lower (char : UInt8) : UInt8 :=
  if 65 ≤ char ∧ char ≤ 90 then char + 32 else char

/-- A header line is its name, a colon and its field. -/
structure Header where
  name : List UInt8
  field : List UInt8
  name_plain : 13 ∉ name ∧ 10 ∉ name ∧ 58 ∉ name
  field_plain : 13 ∉ field ∧ 10 ∉ field

namespace Header

def line (header : Header) : List UInt8 :=
  header.name ++ 58 :: header.field

/-- Names are equal up to the case of their letters. -/
def isKey (header : Header) : Bool :=
  header.name.map lower == ascii "sec-websocket-key"

/-- Spelled as the code expects it: letter by letter, one blank in front of
the value and none behind it. -/
structure Spelled (header : Header) : Prop where
  name : header.name = ascii "Sec-WebSocket-Key"
  field : header.field = 32 :: trim header.field

theorem not_mem_line (header : Header) : 13 ∉ header.line := by
  rw [line, List.mem_append, List.mem_cons]
  rintro (hname | heq | hfield)
  · exact header.name_plain.1 hname
  · exact absurd heq (by decide)
  · exact header.field_plain.1 hfield

theorem line_of_spelled {header : Header} (hspelled : header.Spelled) :
    header.line = keyHeader ++ trim header.field := by
  rw [line, hspelled.name]
  nth_rewrite 1 [hspelled.field]
  rw [keyHeader_eq, List.append_assoc]
  rfl

/-- Text that begins behind the first character of the line. -/
theorem field_of_later_text {header : Header} {char : UInt8}
    {front value : List UInt8} (hsize : header.name.length = 17)
    (hwhole : header.line = char :: front ++ keyHeader ++ value) :
    ∃ ahead, header.field = ahead ++ value ∧ 58 ∈ ahead := by
  have hlong : 17 ≤ (front ++ ascii "Sec-WebSocket-Key").length := by
    rw [List.length_append]
    exact Nat.le_add_left _ _
  refine ⟨(front ++ ascii "Sec-WebSocket-Key").drop 17 ++ [58, 32], ?_, ?_⟩
  · have hfield : header.line.drop 18 = header.field := by
      rw [line, List.append_cons]
      exact List.drop_left' (by rw [List.length_append, hsize]; rfl)
    have hline : header.line = char ::
        (front ++ ascii "Sec-WebSocket-Key" ++ ([58, 32] ++ value)) := by
      rw [hwhole, keyHeader_eq]
      simp only [List.cons_append, List.append_assoc]
    rw [← hfield, hline, List.drop_succ_cons,
      List.drop_append_of_le_length hlong, List.append_assoc]
  · exact List.mem_append_right _ List.mem_cons_self

/-- The line of the key repeats its own value only where it is spelled so. -/
theorem repeats_line_iff {header : Header} (hkey : header.isKey) :
    Repeats header.line (trim header.field) ↔ header.Spelled := by
  have hsize : header.name.length = 17 := by
    have hlower := congrArg List.length (beq_iff_eq.1 hkey)
    rwa [List.length_map] at hlower
  constructor
  · rintro ⟨front, hsplit⟩
    have hwhole := hsplit.whole
    cases front with
    | nil =>
        rw [line, List.nil_append, keyHeader_eq, List.append_assoc] at hwhole
        obtain ⟨hname, hfield⟩ := List.append_inj hwhole hsize
        exact ⟨hname, (List.cons.inj hfield).2⟩
    | cons char front =>
        -- the colon of the text would stand inside the field, ahead of its value
        obtain ⟨ahead, hfield, hmem⟩ := field_of_later_text hsize hwhole
        have hblank := isBlank_of_trim (congrArg trim hfield).symm 58 hmem
        exact absurd hblank (by decide)
  · intro hspelled
    refine ⟨[], line_of_spelled hspelled, ?_⟩
    exact fun other behind hother => Nat.zero_le _

end Header

structure Request where
  requestLine : List UInt8
  headers : List Header
  requestLine_plain : 13 ∉ requestLine ∧ 10 ∉ requestLine
  oneKey : headers.countP Header.isKey ≤ 1

namespace Request

def lines (request : Request) : List (List UInt8) :=
  request.requestLine :: request.headers.map Header.line

def text (request : Request) : List UInt8 :=
  endLines request.lines ++ lineBreak

/-- The value HTTP gives the key header. -/
def keyValue (request : Request) : List UInt8 :=
  match request.headers.find? Header.isKey with
  | some header => trim header.field
  | none => []

theorem keyValue_eq (request : Request) {before after : List Header}
    {header : Header} (hheaders : request.headers = before ++ header :: after)
    (hkey : header.isKey) : request.keyValue = trim header.field := by
  have hone := request.oneKey
  rw [hheaders, List.countP_append, List.countP_cons_of_pos hkey] at hone
  have hbefore : before.countP Header.isKey = 0 := by omega
  have hfind : request.headers.find? Header.isKey = some header := by
    rw [hheaders, List.find?_append, List.find?_cons_of_pos hkey,
      List.find?_eq_none.2 (List.countP_eq_zero.1 hbefore), Option.none_or]
  rw [keyValue, hfind]

/-- Where the first place of the header's text may be: nowhere, with no value
to find; in the request line or another header, with the same value behind it;
or in the key's own line, spelled as the code expects it. -/
inductive KeyLegible (request : Request) : Prop where
  | absent (hvalue : request.keyValue = [])
      (hlines : ∀ line ∈ request.lines, ¬ keyHeader <:+: line)
  | requestLine (hrepeats : Repeats request.requestLine request.keyValue)
  | header (before after : List Header) (header : Header)
      (hheaders : request.headers = before ++ header :: after)
      (hlines : ∀ line ∈ request.requestLine :: before.map Header.line,
        ¬ keyHeader <:+: line)
      (hheader : if header.isKey then header.Spelled
        else Repeats header.line request.keyValue)

theorem repeats_header_iff (request : Request) {before after : List Header}
    {header : Header}
    (hheaders : request.headers = before ++ header :: after) :
    Repeats header.line request.keyValue ↔
      if header.isKey then header.Spelled
      else Repeats header.line request.keyValue := by
  by_cases hkey : header.isKey
  · rw [if_pos hkey, keyValue_eq request hheaders hkey]
    exact Header.repeats_line_iff hkey
  · rw [if_neg hkey]

theorem extractWebsocketKey_text (request : Request) :
    extractWebsocketKey request.text =
      (request.lines.findSome? keyIn).getD [] := by
  refine extractWebsocketKey_endLines ?_
  rw [lines, List.forall_mem_cons]
  refine ⟨request.requestLine_plain.1, ?_⟩
  intro line hline
  obtain ⟨header, -, rfl⟩ := List.mem_map.1 hline
  exact header.not_mem_line

/-- The code finds the key of the request exactly where the first place of the
header's text allows it. -/
theorem extractWebsocketKey_iff_keyLegible (request : Request) :
    extractWebsocketKey request.text = request.keyValue ↔
      request.KeyLegible := by
  rw [extractWebsocketKey_text]
  constructor
  · intro hvalue
    cases hfound : request.lines.findSome? keyIn with
    | none =>
        rw [hfound, Option.getD_none] at hvalue
        refine .absent hvalue.symm fun line hline => ?_
        exact keyIn_eq_none_iff.1 (List.findSome?_eq_none_iff.1 hfound line hline)
    | some key =>
        rw [hfound, Option.getD_some] at hvalue
        subst hvalue
        obtain ⟨ahead, line, behind, hlines, hline, hahead⟩ :=
          List.findSome?_eq_some_iff.1 hfound
        have hrepeats := keyIn_eq_some_iff.1 hline
        cases ahead with
        | nil =>
            obtain ⟨rfl, -⟩ := List.cons.inj hlines
            exact .requestLine hrepeats
        | cons first ahead =>
            obtain ⟨rfl, hmap⟩ := List.cons.inj hlines
            obtain ⟨before, rest, hheaders, rfl, hrest⟩ :=
              List.map_eq_append_iff.1 hmap
            obtain ⟨header, after, rfl, rfl, -⟩ :=
              List.map_eq_cons_iff.1 hrest
            refine .header before after header hheaders ?_ ?_
            · exact fun other hother => keyIn_eq_none_iff.1 (hahead other hother)
            · exact (repeats_header_iff request hheaders).1 hrepeats
  · intro hlegible
    cases hlegible with
    | absent hvalue hlines =>
        rw [hvalue, List.findSome?_eq_none_iff.2, Option.getD_none]
        exact fun line hline => keyIn_eq_none_iff.2 (hlines line hline)
    | requestLine hrepeats =>
        rw [lines, List.findSome?_cons, keyIn_eq_some_iff.2 hrepeats,
          Option.getD_some]
    | header before after header hheaders hlines hheader =>
        have hrepeats := (repeats_header_iff request hheaders).2 hheader
        have hfound : request.lines.findSome? keyIn = some request.keyValue := by
          rw [List.findSome?_eq_some_iff]
          refine ⟨request.requestLine :: before.map Header.line, header.line,
            after.map Header.line, ?_, keyIn_eq_some_iff.2 hrepeats, ?_⟩
          · rw [lines, hheaders, List.map_append]
            rfl
          · exact fun line hline => keyIn_eq_none_iff.2 (hlines line hline)
        rw [hfound, Option.getD_some]

/-- A request with the name of the key header in lower case. -/
def lowerCase : Request where
  requestLine := ascii "GET / HTTP/1.1"
  headers := [{
    name := ascii "sec-websocket-key"
    field := ascii " dGhl"
    name_plain := by decide
    field_plain := by decide }]
  requestLine_plain := by decide
  oneKey := by decide

theorem extractWebsocketKey_lowerCase :
    extractWebsocketKey lowerCase.text ≠ lowerCase.keyValue := by
  decide

end Request

end VoiceServer
