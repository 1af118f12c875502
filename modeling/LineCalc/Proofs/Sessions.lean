import LineCalc.CommandLine.Session
import Mathlib.Data.List.TakeWhile

/-!
# Sessions line by line

A session is made of runs of one line each.  `InputLines` says where its input is cut and
what of each line is left, `Trims` what the text of a line is apart from the blanks around
it, and `Transcript` what the session writes: it is read from the first line on, with one
case for each way that a line can go.  What a line is answered with is what a run with that
line as its expression writes, whatever stood before it.

A session writes what the transcript of the lines of its input says, and there is no other
(`transcript_iff`).  A line that stops the session hides what follows it
(`session_rawLines_of_stops`).
-/

namespace LineCalc

namespace CommandLine

/-! ## Lines of an input -/

/-- The content of a line that was ended, without a carriage return at its end. -/
def withoutReturn (content : List UInt8) : List UInt8 :=
  if content.getLast? = some carriageReturn then content.dropLast else content

/-- The lines of an input: what stands before each end of a line, and what is left after the
last of them. -/
inductive InputLines : List UInt8 → List (List UInt8) → Prop where
  | nil : InputLines [] []
  | unterminated {content : List UInt8} (nonempty : content ≠ []) (inner : newline ∉ content) :
      InputLines content [content]
  | ended {content rest : List UInt8} {lines : List (List UInt8)} (inner : newline ∉ content)
      (later : InputLines rest lines) :
      InputLines (content ++ newline :: rest) (withoutReturn content :: lines)

theorem rawLines_append_newline {content : List UInt8} (inner : newline ∉ content)
    (rest : List UInt8) :
    rawLines (content ++ newline :: rest) = (content ++ [newline]) :: rawLines rest := by
  induction content with
  | nil => rw [List.nil_append, rawLines, if_pos rfl, List.nil_append]
  | cons b content induction =>
    rw [List.mem_cons, not_or] at inner
    rw [List.cons_append, rawLines, if_neg (Ne.symm inner.1), induction inner.2]
    rfl

theorem rawLines_of_not_mem {content : List UInt8} (nonempty : content ≠ [])
    (inner : newline ∉ content) : rawLines content = [content] := by
  induction content with
  | nil => exact absurd rfl nonempty
  | cons b content induction =>
    rw [List.mem_cons, not_or] at inner
    rw [rawLines, if_neg (Ne.symm inner.1)]
    cases content with
    | nil => rfl
    | cons c content => rw [induction (List.cons_ne_nil c content) inner.2]

theorem lineContent_append_newline (content : List UInt8) :
    lineContent (content ++ [newline]) = withoutReturn content := by
  rw [lineContent, List.getLast?_append, List.dropLast_concat]
  rfl

theorem lineContent_of_not_mem {content : List UInt8} (inner : newline ∉ content) :
    lineContent content = content := by
  rw [lineContent, if_neg]
  exact fun last => inner (List.mem_of_getLast? last)

theorem InputLines.eq {input : List UInt8} {lines : List (List UInt8)}
    (cut : InputLines input lines) : lines = (rawLines input).map lineContent := by
  induction cut with
  | nil => rfl
  | unterminated nonempty inner =>
    rw [rawLines_of_not_mem nonempty inner, List.map_singleton, lineContent_of_not_mem inner]
  | ended inner later induction =>
    rw [rawLines_append_newline inner, List.map_cons, lineContent_append_newline, induction]

theorem exists_inputLines (input : List UInt8) : ∃ lines, InputLines input lines := by
  induction length : input.length using Nat.strongRecOn generalizing input with
  | ind n induction =>
    by_cases ends : newline ∈ input
    · obtain ⟨content, rest, rfl, inner⟩ := List.eq_append_cons_of_mem ends
      have shorter : rest.length < n := by
        rw [← length, List.length_append, List.length_cons]
        omega
      obtain ⟨lines, later⟩ := induction _ shorter rest rfl
      exact ⟨_, .ended inner later⟩
    · cases input with
      | nil => exact ⟨[], .nil⟩
      | cons b rest => exact ⟨_, .unterminated (List.cons_ne_nil b rest) ends⟩

theorem inputLines_iff {input : List UInt8} {lines : List (List UInt8)} :
    InputLines input lines ↔ lines = (rawLines input).map lineContent := by
  refine ⟨InputLines.eq, ?_⟩
  rintro rfl
  obtain ⟨lines, cut⟩ := exists_inputLines input
  exact cut.eq ▸ cut

/-- Bytes that are empty or end a line keep their lines whatever follows them. -/
theorem rawLines_append {before : List UInt8} (ended : ∀ b ∈ before.getLast?, b = newline)
    (rest : List UInt8) : rawLines (before ++ rest) = rawLines before ++ rawLines rest := by
  induction before with
  | nil => rfl
  | cons b before induction =>
    have last : ∀ c ∈ before.getLast?, c = newline := by
      intro c membership
      refine ended c ?_
      rw [List.getLast?_cons, Option.mem_def.1 membership]
      rfl
    by_cases ends : b = newline
    · rw [List.cons_append, rawLines, rawLines, if_pos ends, if_pos ends, induction last]
      rfl
    · rw [List.cons_append, rawLines, rawLines, if_neg ends, if_neg ends, induction last]
      cases raw : rawLines before with
      | nil =>
        have empty : before = [] := by rw [← flatten_rawLines before, raw]; rfl
        subst empty
        exact absurd (ended b rfl) ends
      | cons line lines => rfl

/-! ## Characters of a line -/

/-- The bytes that characters are encoded with. -/
def utf8Bytes (line : List Char) : List UInt8 := line.flatMap String.utf8EncodeChar

theorem mk_utf8Bytes (line : List Char) :
    ByteArray.mk (utf8Bytes line).toArray = (String.ofList line).toByteArray := by
  rw [String.toByteArray_ofList, List.utf8Encode]
  apply ByteArray.ext
  simp [utf8Bytes]

theorem decode?_eq_some_iff {bytes : List UInt8} {line : List Char} :
    decode? bytes = some line ↔ utf8Bytes line = bytes := by
  rw [decode?, Option.map_eq_some_iff]
  constructor
  · rintro ⟨text, decoded, rfl⟩
    rw [String.fromUTF8?] at decoded
    split at decoded
    next valid =>
      cases decoded
      have same := mk_utf8Bytes (String.fromUTF8 ⟨bytes.toArray⟩ valid).toList
      rw [String.ofList_toList] at same
      have arrays := congrArg ByteArray.data same
      exact congrArg Array.toList arrays
    next => cases decoded
  · rintro rfl
    refine ⟨String.ofList line, ?_, String.toList_ofList⟩
    rw [mk_utf8Bytes, String.fromUTF8?, dif_pos (String.isValidUTF8 _)]
    rfl

theorem decode?_eq_none_iff {bytes : List UInt8} :
    decode? bytes = none ↔ ∀ line, utf8Bytes line ≠ bytes := by
  rw [Option.eq_none_iff_forall_ne_some]
  exact forall_congr' fun _ => not_congr decode?_eq_some_iff

/-- The text of a line without the blanks around it. -/
structure Trims (line trimmed : List Char) : Prop where
  around : ∃ front back, line = front ++ (trimmed ++ back) ∧
    (∀ c ∈ front, isBlank c = true) ∧ ∀ c ∈ back, isBlank c = true
  first : ∀ c ∈ trimmed.head?, isBlank c = false
  last : ∀ c ∈ trimmed.getLast?, isBlank c = false

theorem dropWhile_isBlank_of_head? {text : List Char}
    (first : ∀ c ∈ text.head?, isBlank c = false) : text.dropWhile isBlank = text := by
  cases text with
  | nil => rfl
  | cons c rest =>
    refine List.dropWhile_cons_of_neg ?_
    rw [first c rfl]
    exact Bool.false_ne_true

theorem isBlank_of_mem_head?_dropWhile (text : List Char) {c : Char}
    (membership : c ∈ (text.dropWhile isBlank).head?) : isBlank c = false := by
  have stopped := List.head?_dropWhile_not isBlank text
  rw [Option.mem_def.1 membership] at stopped
  simpa using stopped

theorem Trims.eq {line trimmed : List Char} (trims : Trims line trimmed) :
    trimBlanks line = trimmed := by
  obtain ⟨⟨front, back, rfl, blankFront, blankBack⟩, first, last⟩ := trims
  rw [trimBlanks, List.dropWhile_append_of_pos blankFront]
  cases trimmed with
  | nil =>
    rw [List.nil_append, List.dropWhile_eq_nil_iff.2 blankBack]
    rfl
  | cons c rest =>
    have blankReverse : ∀ c ∈ back.reverse, isBlank c = true :=
      fun c membership => blankBack c (List.mem_reverse.1 membership)
    have stops : ∀ d ∈ (c :: rest).reverse.head?, isBlank d = false := by
      rw [List.head?_reverse]
      exact last
    have kept : (c :: rest ++ back).dropWhile isBlank = c :: rest ++ back :=
      dropWhile_isBlank_of_head? first
    rw [kept, List.reverse_append, List.dropWhile_append_of_pos blankReverse,
      dropWhile_isBlank_of_head? stops, List.reverse_reverse]

theorem trims_trimBlanks (line : List Char) : Trims line (trimBlanks line) := by
  have whole : line.dropWhile isBlank =
      trimBlanks line ++ ((line.dropWhile isBlank).reverse.takeWhile isBlank).reverse := by
    rw [trimBlanks, ← List.reverse_append, List.takeWhile_append_dropWhile, List.reverse_reverse]
  refine ⟨⟨line.takeWhile isBlank, ((line.dropWhile isBlank).reverse.takeWhile isBlank).reverse,
    ?_, fun _ => List.mem_takeWhile_imp, ?_⟩, ?_, ?_⟩
  · rw [← whole, List.takeWhile_append_dropWhile]
  · exact fun _ membership => List.mem_takeWhile_imp (List.mem_reverse.1 membership)
  · intro c membership
    refine isBlank_of_mem_head?_dropWhile line ?_
    rw [whole, List.head?_append, Option.mem_def.1 membership]
    rfl
  · intro c membership
    rw [trimBlanks, List.getLast?_reverse] at membership
    exact isBlank_of_mem_head?_dropWhile _ membership

theorem trims_iff {line trimmed : List Char} : Trims line trimmed ↔ trimBlanks line = trimmed :=
  ⟨Trims.eq, fun trimmed => trimmed ▸ trims_trimBlanks line⟩

/-! ## Turns -/

/-- Words that end a session. -/
inductive Farewell : List Char → Prop where
  | exit : Farewell ['e', 'x', 'i', 't']
  | quit : Farewell ['q', 'u', 'i', 't']

theorem farewell_iff {word : List Char} : Farewell word ↔ word ∈ farewells := by
  constructor
  · rintro (_ | _)
    · exact .head _
    · exact .tail _ (.head _)
  · intro membership
    rcases List.mem_cons.1 membership with rfl | membership
    · exact .exit
    · rw [List.mem_singleton.1 membership]
      exact .quit

theorem Farewell.ne_nil {word : List Char} (parting : Farewell word) : word ≠ [] := by
  cases parting <;> exact List.cons_ne_nil _ _

variable {tokens : Bool} {raw : List UInt8} {line word : List Char}

theorem turn_of_undecoded (invalid : ∀ line, utf8Bytes line ≠ lineContent raw) :
    turn tokens raw = .stop unreadable := by
  rw [turn, decode?_eq_none_iff.2 invalid]

theorem turn_of_decoded (content : lineContent raw = utf8Bytes line) (trims : Trims line word) :
    turn tokens raw =
      if word = [] then .next .empty
      else if word ∈ farewells then .stop ⟨.empty, 0⟩
      else .next (runLine tokens line).writing := by
  rw [turn, decode?_eq_some_iff.2 content.symm]
  dsimp only
  rw [trims.eq]

theorem turn_of_farewell (content : lineContent raw = utf8Bytes line) (trims : Trims line word)
    (parting : Farewell word) : turn tokens raw = .stop ⟨.empty, 0⟩ := by
  rw [turn_of_decoded content trims, if_neg parting.ne_nil, if_pos (farewell_iff.1 parting)]

theorem turn_of_blank (content : lineContent raw = utf8Bytes line) (trims : Trims line []) :
    turn tokens raw = .next .empty := by
  rw [turn_of_decoded content trims, if_pos rfl]

theorem turn_of_shown (content : lineContent raw = utf8Bytes line) (trims : Trims line word)
    (nonempty : word ≠ []) (stays : ¬Farewell word) :
    turn tokens raw = .next (runLine tokens line).writing := by
  rw [turn_of_decoded content trims, if_neg nonempty, if_neg (mt farewell_iff.2 stays)]

/-! ## Transcripts -/

/-- The arguments that select what a line is answered with. -/
def modeArguments (tokens : Bool) : List (List Char) := if tokens then [['-', 't']] else []

/-- Without an expression both modes ask for the lines of the input. -/
theorem readRequest_modeArguments (tokens : Bool) :
    readRequest (modeArguments tokens) = .ok (.run tokens none) := by
  cases tokens <;> rfl

/-- A run with the line as its expression. -/
theorem run_line (tokens : Bool) (line : List Char) (input : List UInt8) :
    run (modeArguments tokens ++ [['-', '-'], line]) input = runLine tokens line := by
  cases tokens <;> rfl

/-- A report with something written before it. -/
def Report.after (earlier : Writing) (later : Report) : Report :=
  ⟨earlier ++ later.writing, later.status⟩

/-- What a session writes when these are the contents of its lines, and its status. -/
inductive Transcript (tokens : Bool) : List (List UInt8) → Report → Prop where
  | ends : Transcript tokens [] ⟨⟨"calc> \n", ""⟩, 0⟩
  | unreadable {bytes : List UInt8} {rest : List (List UInt8)}
      (invalid : ∀ line, utf8Bytes line ≠ bytes) :
      Transcript tokens (bytes :: rest)
        ⟨⟨"calc> ", "Failed to read from stdin: stream did not contain valid UTF-8\n"⟩, 1⟩
  | farewell {line word : List Char} {rest : List (List UInt8)} (trims : Trims line word)
      (parting : Farewell word) : Transcript tokens (utf8Bytes line :: rest) ⟨⟨"calc> ", ""⟩, 0⟩
  | blank {line : List Char} {rest : List (List UInt8)} {later : Report} (trims : Trims line [])
      (goesOn : Transcript tokens rest later) :
      Transcript tokens (utf8Bytes line :: rest) (later.after ⟨"calc> ", ""⟩)
  /-- The line as it stands is run by itself, with what surrounds its text. -/
  | shown {line word : List Char} {rest : List (List UInt8)} {answer later : Report}
      (trims : Trims line word) (nonempty : word ≠ []) (stays : ¬ Farewell word)
      (runs : ∀ input, run (modeArguments tokens ++ [['-', '-'], line]) input = answer)
      (goesOn : Transcript tokens rest later) :
      Transcript tokens (utf8Bytes line :: rest)
        (later.after ⟨"calc> " ++ answer.writing.out, answer.writing.err⟩)

theorem prompt_append (writing : Writing) :
    prompt ++ writing = ⟨"calc> " ++ writing.out, writing.err⟩ := by
  change Writing.mk ("calc> " ++ writing.out) ("" ++ writing.err) = _
  rw [String.empty_append]

theorem session_of_stop {report : Report} {rest : List (List UInt8)}
    (stops : turn tokens raw = .stop report) :
    session tokens (raw :: rest) =
      ⟨⟨"calc> " ++ report.writing.out, report.writing.err⟩, report.status⟩ := by
  rw [session, stops, ← prompt_append]

theorem session_of_next {writing : Writing} {rest : List (List UInt8)}
    (goesOn : turn tokens raw = .next writing) :
    session tokens (raw :: rest) =
      (session tokens rest).after ⟨"calc> " ++ writing.out, writing.err⟩ := by
  rw [session, goesOn, Report.after, ← prompt_append]

theorem Transcript.session_eq {lines : List (List UInt8)} {report : Report}
    (transcript : Transcript tokens lines report) {raws : List (List UInt8)}
    (contents : raws.map lineContent = lines) : session tokens raws = report := by
  induction transcript generalizing raws with
  | ends =>
    cases List.map_eq_nil_iff.1 contents
    rfl
  | unreadable invalid =>
    obtain ⟨raw, rest, rfl, rfl, -⟩ := List.map_eq_cons_iff.1 contents
    exact session_of_stop (turn_of_undecoded invalid)
  | farewell trims parting =>
    obtain ⟨raw, rest, rfl, content, -⟩ := List.map_eq_cons_iff.1 contents
    exact session_of_stop (turn_of_farewell content trims parting)
  | blank trims goesOn induction =>
    obtain ⟨raw, rest, rfl, content, remaining⟩ := List.map_eq_cons_iff.1 contents
    rw [session_of_next (turn_of_blank content trims), induction remaining]
    rfl
  | @shown line word rest answer later trims nonempty stays runs goesOn induction =>
    obtain ⟨raw, rest, rfl, content, remaining⟩ := List.map_eq_cons_iff.1 contents
    have answered : runLine tokens line = answer := (run_line tokens line []).symm.trans (runs [])
    rw [session_of_next (turn_of_shown content trims nonempty stays), induction remaining,
      answered]

/-- Each line can go in one of the ways of a transcript. -/
theorem exists_transcript (tokens : Bool) (lines : List (List UInt8)) :
    ∃ report, Transcript tokens lines report := by
  induction lines with
  | nil => exact ⟨_, .ends⟩
  | cons bytes rest induction =>
    obtain ⟨later, goesOn⟩ := induction
    cases decoded : decode? bytes with
    | none => exact ⟨_, .unreadable (decode?_eq_none_iff.1 decoded)⟩
    | some line =>
      cases decode?_eq_some_iff.1 decoded
      have trims := trims_trimBlanks line
      by_cases empty : trimBlanks line = []
      · rw [empty] at trims
        exact ⟨_, .blank trims goesOn⟩
      · by_cases parting : Farewell (trimBlanks line)
        · exact ⟨_, .farewell trims parting⟩
        · exact ⟨_, .shown trims empty parting (run_line tokens line) goesOn⟩

theorem transcript_iff {raws : List (List UInt8)} {report : Report} :
    Transcript tokens (raws.map lineContent) report ↔ session tokens raws = report := by
  refine ⟨fun transcript => transcript.session_eq rfl, ?_⟩
  rintro rfl
  obtain ⟨report, transcript⟩ := exists_transcript tokens (raws.map lineContent)
  exact transcript.session_eq rfl ▸ transcript

/-! ## Lines that stop a session -/

/-- A line whose content stops the session. -/
inductive Stops : List UInt8 → Prop where
  | unreadable {bytes : List UInt8} (invalid : ∀ line, utf8Bytes line ≠ bytes) : Stops bytes
  | farewell {line word : List Char} (trims : Trims line word) (parting : Farewell word) :
      Stops (utf8Bytes line)

theorem Stops.turn_eq (stops : Stops (lineContent raw)) (tokens : Bool) :
    ∃ report, turn tokens raw = .stop report := by
  generalize content : lineContent raw = bytes at stops
  cases stops with
  | unreadable invalid =>
    rw [← content] at invalid
    exact ⟨_, turn_of_undecoded invalid⟩
  | farewell trims parting => exact ⟨_, turn_of_farewell content trims parting⟩

theorem session_append_of_stop {report : Report} (stops : turn tokens raw = .stop report)
    (before after other : List (List UInt8)) :
    session tokens (before ++ raw :: after) = session tokens (before ++ raw :: other) := by
  induction before with
  | nil => rw [List.nil_append, List.nil_append, session_of_stop stops, session_of_stop stops]
  | cons earlier before induction =>
    rw [List.cons_append, List.cons_append, session, session, induction]

/-- What follows a line that stops the session is as good as not there. -/
theorem session_rawLines_of_stops {before content : List UInt8}
    (ended : ∀ b ∈ before.getLast?, b = newline) (inner : newline ∉ content)
    (stops : Stops (withoutReturn content)) (tokens : Bool) (after other : List UInt8) :
    session tokens (rawLines (before ++ (content ++ newline :: after))) =
      session tokens (rawLines (before ++ (content ++ newline :: other))) := by
  rw [← lineContent_append_newline] at stops
  obtain ⟨report, turns⟩ := stops.turn_eq tokens
  rw [rawLines_append ended, rawLines_append ended, rawLines_append_newline inner,
    rawLines_append_newline inner, session_append_of_stop turns]

/-! ## Sessions -/

theorem runLine_channels (tokens : Bool) (line : List Char) :
    (runLine tokens line).status = 0 ∧ (runLine tokens line).writing.err = "" ∨
      (runLine tokens line).status = 1 ∧ (runLine tokens line).writing.out = "" := by
  rw [runLine]
  cases answerText tokens line with
  | ok text => exact .inl ⟨rfl, rfl⟩
  | error error => exact .inr ⟨rfl, rfl⟩

theorem run_of_session {arguments : List (List Char)}
    (asks : readRequest arguments = .ok (.run tokens none)) (input : List UInt8) :
    run arguments input = session tokens (rawLines input) := by
  rw [run, plan, asks]

/-- Without an expression, a run answers the lines of its input one by one: its report is that
of their transcript, and there is no other.  A line that fails by itself leaves the channel for
results alone, and one that succeeds the channel for faults.  What follows a line that stops the
session has no part in the report.  The arguments of either mode are such a run. -/
theorem run_line_by_line {arguments : List (List Char)} {tokens : Bool}
    (asks : readRequest arguments = .ok (.run tokens none)) (input : List UInt8) :
    (∀ report, run arguments input = report ↔
      ∃ lines, InputLines input lines ∧ Transcript tokens lines report) ∧
    (∀ line other, ∃ answer, run (modeArguments tokens ++ [['-', '-'], line]) other = answer ∧
      (answer.status = 0 ∧ answer.writing.err = "" ∨
        answer.status = 1 ∧ answer.writing.out = "")) ∧
    (∀ before content after, input = before ++ (content ++ newline :: after) →
      (∀ b ∈ before.getLast?, b = newline) → newline ∉ content → Stops (withoutReturn content) →
      ∀ other, run arguments (before ++ (content ++ newline :: other)) = run arguments input) ∧
    ∀ mode, readRequest (modeArguments mode) = .ok (.run mode none) := by
  refine ⟨fun report => ?_, fun line other => ⟨_, run_line tokens line other, ?_⟩, ?_,
    readRequest_modeArguments⟩
  · rw [run_of_session asks, ← transcript_iff]
    constructor
    · exact fun transcript => ⟨_, inputLines_iff.2 rfl, transcript⟩
    · rintro ⟨lines, cut, transcript⟩
      exact cut.eq ▸ transcript
  · exact runLine_channels tokens line
  · rintro before content after rfl ended inner stops other
    rw [run_of_session asks, run_of_session asks]
    exact session_rawLines_of_stops ended inner stops tokens other after

/-- One line is answered, one has a character that starts no token, one asks to quit between a
no-break space and a carriage return, and one is not read.  The second line is a fault if tokens
are asked for, and otherwise it comes to what stands before the character. -/
theorem run_line_by_line_modes :
    readRequest [] = .ok (.run false none) ∧ readRequest [['-', 't']] = .ok (.run true none) ∧
    (∃ lines, InputLines [50, 10, 56, 63, 10, 0xC2, 0xA0, 113, 117, 105, 116, 13, 10, 55] lines ∧
      Transcript false lines ⟨⟨"calc> 2\ncalc> 8\ncalc> ", ""⟩, 0⟩) ∧
    (∃ lines, InputLines [50, 10, 56, 63, 10, 0xC2, 0xA0, 113, 117, 105, 116, 13, 10, 55] lines ∧
      Transcript true lines
        ⟨⟨"calc> Token(INTEGER, 2)\nToken(EOF, None)\ncalc> calc> ",
          "Error at position 2: Invalid character '?'.\n"⟩, 0⟩) ∧
    ∀ mode,
      run (modeArguments mode) [50, 10, 56, 63, 10, 0xC2, 0xA0, 113, 117, 105, 116, 13, 10] =
        run (modeArguments mode)
          [50, 10, 56, 63, 10, 0xC2, 0xA0, 113, 117, 105, 116, 13, 10, 55] := by
  have asks : readRequest [] = .ok (.run false none) := rfl
  have asksTokens : readRequest [['-', 't']] = .ok (.run true none) := rfl
  have whole (mode : Bool) := run_line_by_line (readRequest_modeArguments mode)
    [50, 10, 56, 63, 10, 0xC2, 0xA0, 113, 117, 105, 116, 13, 10, 55]
  have trims : Trims ['\u00A0', 'q', 'u', 'i', 't'] ['q', 'u', 'i', 't'] :=
    trims_iff.2 (by decide +kernel)
  have content : withoutReturn [0xC2, 0xA0, 113, 117, 105, 116, 13] =
      utf8Bytes ['\u00A0', 'q', 'u', 'i', 't'] := by decide +kernel
  have stops : Stops (withoutReturn [0xC2, 0xA0, 113, 117, 105, 116, 13]) :=
    content ▸ .farewell trims .quit
  have ended : ∀ b ∈ [50, 10, 56, 63, 10].getLast?, b = newline := by
    rintro b ⟨⟩
    rfl
  refine ⟨asks, asksTokens, ((whole false).1 _).1 (by decide +kernel),
    ((whole true).1 _).1 (by decide +kernel), fun mode => ?_⟩
  exact (whole mode).2.2.1 [50, 10, 56, 63, 10] [0xC2, 0xA0, 113, 117, 105, 116, 13] [55] rfl ended
    (by decide) stops []

end CommandLine

end LineCalc
