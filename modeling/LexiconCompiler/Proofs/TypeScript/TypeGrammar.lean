import LexiconCompiler.Proofs.Text.Hexadecimal

set_option autoImplicit false
set_option relaxedAutoImplicit false

/-!
Types of TypeScript as they are read: tokens first, then a grammar in which the brackets of an array
bind tighter than `&`, and `&` binds tighter than `|`. A text is read in one way at most.
-/

namespace LexiconCompiler.TypeScript

open LexiconCompiler.Text

section Tokens

/-- A token of a type. Words and quoted literals are atoms, whatever stands between the quotes. -/
inductive TypeToken where
  | atom (text : String)
  | bar
  | ampersand
  | openParen
  | closeParen
  | openBracket
  | closeBracket
  | openBrace
  | closeBrace
  deriving DecidableEq, Repr

def markToken? : Char -> Option TypeToken
  | '|' => some .bar
  | '&' => some .ampersand
  | '(' => some .openParen
  | ')' => some .closeParen
  | '[' => some .openBracket
  | ']' => some .closeBracket
  | '\x7b' => some .openBrace
  | '\x7d' => some .closeBrace
  | _ => none

/-- What names and numbers consist of, with the dots and signs in them. -/
def isWordChar (c : Char) : Bool := isAsciiAlnum c || ['_', '$', '.', '+', '-'].contains c

/-- Where a scanner stands: between tokens, or in a token of which some characters were read. -/
inductive Scan where
  | between
  | word (read : List Char)
  | literal (read : List Char)
  | escape (read : List Char)
  deriving DecidableEq, Repr

namespace Scan

def begin? (c : Char) : Option (List TypeToken × Scan) :=
  if c == ' ' then some ([], .between)
  else if c == '"' then some ([], .literal [c])
  else if isWordChar c then some ([], .word [c])
  else (markToken? c).map fun token => ([token], .between)

def next? : Scan -> Char -> Option (List TypeToken × Scan)
  | .between, c => begin? c
  | .word read, c =>
    if isWordChar c then some ([], .word (read ++ [c]))
    else (begin? c).map fun (tokens, scan) => (.atom (String.ofList read) :: tokens, scan)
  | .literal read, c =>
    if c == '"' then some ([.atom (String.ofList (read ++ [c]))], .between)
    else if c == '\\' then some ([], .escape (read ++ [c]))
    else if c == '\n' || c == '\r' then none
    else some ([], .literal (read ++ [c]))
  | .escape read, c => some ([], .literal (read ++ [c]))

def end? : Scan -> Option (List TypeToken)
  | .between => some []
  | .word read => some [.atom (String.ofList read)]
  | .literal _ => none
  | .escape _ => none

def tokens? (scan : Scan) : List Char -> Option (List TypeToken)
  | [] => scan.end?
  | c :: rest =>
    (scan.next? c).bind fun (tokens, behind) => (behind.tokens? rest).map (tokens ++ ·)

end Scan

def typeTokens? (text : String) : Option (List TypeToken) := Scan.between.tokens? text.toList

end Tokens

section Grammar

/-- What a type consists of. -/
inductive TypeTree where
  | leaf (text : String)
  | emptyObject
  | array (element : TypeTree)
  | union (alternatives : List TypeTree)
  | intersection (parts : List TypeTree)
  deriving Repr

def intersectionOf : List TypeTree -> TypeTree
  | [part] => part
  | parts => .intersection parts

def unionOf : List TypeTree -> TypeTree
  | [alternative] => alternative
  | alternatives => .union alternatives

mutual

inductive Primary : List TypeToken -> TypeTree -> Prop
  | atom (text : String) : Primary [.atom text] (.leaf text)
  | braces : Primary [.openBrace, .closeBrace] .emptyObject
  | parens {tokens : List TypeToken} {alternatives : List TypeTree} :
      Alternatives tokens alternatives ->
      Primary (.openParen :: (tokens ++ [.closeParen])) (unionOf alternatives)

inductive Postfix : List TypeToken -> TypeTree -> Prop
  | primary {tokens : List TypeToken} {tree : TypeTree} : Primary tokens tree ->
      Postfix tokens tree
  | array {tokens : List TypeToken} {element : TypeTree} : Postfix tokens element ->
      Postfix (tokens ++ [.openBracket, .closeBracket]) (.array element)

/-- The parts of an intersection. -/
inductive Parts : List TypeToken -> List TypeTree -> Prop
  | one {tokens : List TypeToken} {part : TypeTree} : Postfix tokens part -> Parts tokens [part]
  | more {tokens others : List TypeToken} {part : TypeTree} {rest : List TypeTree} :
      Postfix tokens part -> Parts others rest ->
      Parts (tokens ++ .ampersand :: others) (part :: rest)

/-- The alternatives of a union. -/
inductive Alternatives : List TypeToken -> List TypeTree -> Prop
  | one {tokens : List TypeToken} {parts : List TypeTree} : Parts tokens parts ->
      Alternatives tokens [intersectionOf parts]
  | more {tokens others : List TypeToken} {parts rest : List TypeTree} : Parts tokens parts ->
      Alternatives others rest ->
      Alternatives (tokens ++ .bar :: others) (intersectionOf parts :: rest)

end

def Parses (text : String) (tree : TypeTree) : Prop :=
  ∃ tokens alternatives, typeTokens? text = some tokens ∧ Alternatives tokens alternatives ∧
    tree = unionOf alternatives

end Grammar

section Scanning

/-- Whatever stands behind a text, the tokens of the text come first. -/
def Closed (text : List Char) (tokens : List TypeToken) : Prop :=
  ∀ rest, Scan.between.tokens? (text ++ rest) = (Scan.between.tokens? rest).map (tokens ++ ·)

/-- The tokens of a text come first wherever the text is not followed by more of a word. -/
def Lexed (text : List Char) (tokens : List TypeToken) : Prop :=
  ∀ rest, (∀ c ∈ rest.head?, isWordChar c = false) ->
    Scan.between.tokens? (text ++ rest) = (Scan.between.tokens? rest).map (tokens ++ ·)

variable {text more : List Char} {tokens others : List TypeToken}

theorem Closed.lexed (h : Closed text tokens) : Lexed text tokens := fun rest _ => h rest

theorem Closed.append (h : Closed text tokens) (k : Closed more others) :
    Closed (text ++ more) (tokens ++ others) := by
  intro rest
  rw [List.append_assoc, h, k, Option.map_map]
  simp only [Function.comp_def, List.append_assoc]

theorem Closed.append_lexed (h : Closed text tokens) (k : Lexed more others) :
    Lexed (text ++ more) (tokens ++ others) := by
  intro rest hrest
  rw [List.append_assoc, h, k rest hrest, Option.map_map]
  simp only [Function.comp_def, List.append_assoc]

theorem Lexed.append_closed {c : Char} (h : Lexed text tokens) (hc : isWordChar c = false)
    (k : Closed (c :: more) others) : Closed (text ++ c :: more) (tokens ++ others) := by
  intro rest
  have hhead : ∀ d ∈ (c :: more ++ rest).head?, isWordChar d = false := by
    rintro d ⟨⟩
    exact hc
  rw [List.append_assoc, h _ hhead, k, Option.map_map]
  simp only [Function.comp_def, List.append_assoc]

theorem Lexed.typeTokens? {s : String} (h : Lexed s.toList tokens) :
    typeTokens? s = some tokens := by
  have hall := h [] (by simp)
  rw [List.append_nil] at hall
  rw [LexiconCompiler.TypeScript.typeTokens?, hall]
  simp [Scan.tokens?, Scan.end?]

theorem closed_blank : Closed [' '] [] := by
  intro rest
  simp [Scan.tokens?, Scan.next?, Scan.begin?]

private theorem mark_of_markToken? {c : Char} {token : TypeToken} (h : markToken? c = some token) :
    isWordChar c = false ∧ Scan.begin? c = some ([token], .between) := by
  unfold markToken? at h
  split at h <;> cases h <;> decide

theorem closed_mark {c : Char} {token : TypeToken} (h : markToken? c = some token) :
    Closed [c] [token] := by
  intro rest
  simp [Scan.tokens?, Scan.next?, (mark_of_markToken? h).2]

section Words

private theorem tokens?_word (read : List Char) (hword : ∀ c ∈ text, isWordChar c = true)
    (rest : List Char) :
    (Scan.word read).tokens? (text ++ rest) = (Scan.word (read ++ text)).tokens? rest := by
  induction text generalizing read with
  | nil => simp
  | cons c text ih =>
    rw [List.forall_mem_cons] at hword
    simp [Scan.tokens?, Scan.next?, hword.1, ih _ hword.2]

private theorem tokens?_word_end (read : List Char) {rest : List Char}
    (hrest : ∀ c ∈ rest.head?, isWordChar c = false) :
    (Scan.word read).tokens? rest =
      (Scan.between.tokens? rest).map ([TypeToken.atom (String.ofList read)] ++ ·) := by
  cases rest with
  | nil => rfl
  | cons c rest =>
    have hc : isWordChar c = false := hrest c rfl
    cases hb : Scan.begin? c <;> simp [Scan.tokens?, Scan.next?, hc, hb, Function.comp_def]

private theorem begin?_word {c : Char} (h : isWordChar c = true) :
    Scan.begin? c = some ([], .word [c]) := by
  have hblank : c ≠ ' ' := by
    rintro rfl
    revert h
    decide
  have hquote : c ≠ '"' := by
    rintro rfl
    revert h
    decide
  simp [Scan.begin?, hblank, hquote, h]

theorem lexed_word (hne : text ≠ []) (hword : ∀ c ∈ text, isWordChar c = true) :
    Lexed text [.atom (String.ofList text)] := by
  intro rest hrest
  obtain ⟨c, text, rfl⟩ := List.exists_cons_of_ne_nil hne
  rw [List.forall_mem_cons] at hword
  have hread := tokens?_word [c] hword.2 rest
  rw [List.singleton_append, tokens?_word_end _ hrest] at hread
  rw [← hread]
  simp [Scan.tokens?, Scan.next?, begin?_word hword.1]

end Words

section Literals

def ReadsOn (cs : List Char) : Prop :=
  ∀ read rest, (Scan.literal read).tokens? (cs ++ rest) = (Scan.literal (read ++ cs)).tokens? rest

variable {cs ds : List Char}

private theorem readsOn_nil : ReadsOn [] := by
  intro read rest
  simp

private theorem ReadsOn.append (h : ReadsOn cs) (k : ReadsOn ds) : ReadsOn (cs ++ ds) := by
  intro read rest
  rw [List.append_assoc, h, k, List.append_assoc]

private theorem readsOn_plain {c : Char} (hmark : c ≠ '"') (hback : c ≠ '\\') (hline : c ≠ '\n')
    (hreturn : c ≠ '\r') : ReadsOn [c] := by
  intro read rest
  simp [Scan.tokens?, Scan.next?, hmark, hback, hline, hreturn]

private theorem readsOn_escape (c : Char) : ReadsOn ['\\', c] := by
  intro read rest
  simp [Scan.tokens?, Scan.next?, Function.comp_def]

private theorem readsOn_flatMap {spell : Char -> List Char} (h : ∀ c ∈ cs, ReadsOn (spell c)) :
    ReadsOn (cs.flatMap spell) := by
  induction cs with
  | nil => exact readsOn_nil
  | cons c rest ih =>
    rw [List.forall_mem_cons] at h
    rw [List.flatMap_cons]
    exact h.1.append (ih h.2)

private theorem readsOn_hexDigits (n width : Nat) : ReadsOn (hexDigits n width) := by
  induction width generalizing n with
  | zero => exact readsOn_nil
  | succ width ih =>
    have hdigit := isHexDigit_hexDigit (Nat.mod_lt n (show 0 < 16 by decide))
    obtain ⟨hmark, hback, hline, hreturn, -⟩ := hdigit.plain
    rw [hexDigits]
    exact (ih _).append (readsOn_plain hmark hback hline hreturn)

private theorem readsOn_numbered (letter : Char) (n width : Nat) :
    ReadsOn ('\\' :: letter :: hexDigits n width) :=
  (readsOn_escape letter).append (readsOn_hexDigits n width)

private theorem readsOn_ite {p : Prop} [Decidable p] (h : ReadsOn cs) (k : ReadsOn ds) :
    ReadsOn (if p then cs else ds) := by
  split
  · exact h
  · exact k

private theorem readsOn_escapeChar (c : Char) : ReadsOn (escapeChar '"' c) := by
  by_cases hspecial : (c == '"' || c == '\\') = true
  · rw [escapeChar, if_pos hspecial]
    exact readsOn_escape c
  by_cases hprint : isPrintable c = true
  · rw [escapeChar, if_neg hspecial, if_pos hprint]
    simp only [beq_iff_eq, Bool.or_eq_true, not_or] at hspecial
    have hline : c ≠ '\n' ∧ c ≠ '\r' := by
      constructor <;> rintro rfl <;> revert hprint <;> decide
    exact readsOn_plain hspecial.1 hspecial.2 hline.1 hline.2
  · rw [escapeChar, if_neg hspecial, if_neg hprint]
    refine readsOn_ite (readsOn_escape 'a') ?_
    refine readsOn_ite (readsOn_escape 'b') ?_
    refine readsOn_ite (readsOn_escape 'f') ?_
    refine readsOn_ite (readsOn_escape 'n') ?_
    refine readsOn_ite (readsOn_escape 'r') ?_
    refine readsOn_ite (readsOn_escape 't') ?_
    refine readsOn_ite (readsOn_escape 'v') ?_
    refine readsOn_ite (readsOn_numbered 'x' c.toNat 2) ?_
    exact readsOn_ite (readsOn_numbered 'u' c.toNat 4) (readsOn_numbered 'U' c.toNat 8)

theorem closed_quote (s : String) : Closed (quote s).toList [.atom (quote s)] := by
  have hinner : ReadsOn (s.toList.flatMap (escapeChar '"')) :=
    readsOn_flatMap fun c _ => readsOn_escapeChar c
  intro rest
  have hread := hinner ['"'] ('"' :: rest)
  rw [quote, String.toList_ofList, quoteList, List.cons_append, List.append_assoc,
    List.singleton_append]
  simp [Scan.tokens?, Scan.next?, Scan.begin?, hread, Function.comp_def]

end Literals

end Scanning

section Unambiguous

/-- What was read inside of a bracket: the alternatives before the last `|`, and the parts behind it
up to the last `&`. -/
structure Frame where
  alternatives : List TypeTree
  parts : List TypeTree

def Frame.close (frame : Frame) (last : TypeTree) : TypeTree :=
  unionOf (frame.alternatives ++ [intersectionOf (frame.parts ++ [last])])

def readType? : List Frame -> Frame -> Option TypeTree -> List TypeToken -> Option TypeTree
  | [], frame, some tree, [] => some (frame.close tree)
  | outer, frame, none, .atom text :: rest => readType? outer frame (some (.leaf text)) rest
  | outer, frame, none, .openBrace :: .closeBrace :: rest =>
    readType? outer frame (some .emptyObject) rest
  | outer, frame, none, .openParen :: rest => readType? (frame :: outer) ⟨[], []⟩ none rest
  | around :: outer, frame, some tree, .closeParen :: rest =>
    readType? outer around (some (frame.close tree)) rest
  | outer, frame, some tree, .openBracket :: .closeBracket :: rest =>
    readType? outer frame (some (.array tree)) rest
  | outer, frame, some tree, .ampersand :: rest =>
    readType? outer ⟨frame.alternatives, frame.parts ++ [tree]⟩ none rest
  | outer, frame, some tree, .bar :: rest =>
    readType? outer ⟨frame.alternatives ++ [intersectionOf (frame.parts ++ [tree])], []⟩ none rest
  | _, _, _, _ => none

-- Every derivation is followed token by token, whatever brackets are open and whatever follows.
mutual

private theorem Primary.read (outer : List Frame) (frame : Frame) (rest : List TypeToken) :
    {tokens : List TypeToken} -> {tree : TypeTree} -> Primary tokens tree ->
    readType? outer frame none (tokens ++ rest) = readType? outer frame (some tree) rest
  | _, _, .atom _ => by rw [List.singleton_append, readType?]
  | _, _, .braces => by rw [List.cons_append, List.singleton_append, readType?]
  | _, _, .parens h => by
    obtain ⟨inner, last, hclose, hread⟩ := h.read (frame :: outer) [] (.closeParen :: rest)
    rw [List.cons_append, List.append_assoc, List.singleton_append, readType?, hread, readType?,
      Frame.close, hclose, List.nil_append]

private theorem Postfix.read (outer : List Frame) (frame : Frame) (rest : List TypeToken) :
    {tokens : List TypeToken} -> {tree : TypeTree} -> Postfix tokens tree ->
    readType? outer frame none (tokens ++ rest) = readType? outer frame (some tree) rest
  | _, _, .primary h => h.read outer frame rest
  | _, _, .array h => by
    rw [List.append_assoc, h.read, List.cons_append, List.singleton_append, readType?]

private theorem Parts.read (outer : List Frame) (alternatives before : List TypeTree)
    (rest : List TypeToken) : {tokens : List TypeToken} -> {trees : List TypeTree} ->
    Parts tokens trees ->
    ∃ parts last, parts ++ [last] = before ++ trees ∧
      readType? outer ⟨alternatives, before⟩ none (tokens ++ rest) =
        readType? outer ⟨alternatives, parts⟩ (some last) rest
  | _, _, .one h => ⟨before, _, rfl, h.read outer _ rest⟩
  | _, _, @Parts.more _ _ part _ h k => by
    obtain ⟨parts, last, hparts, hread⟩ := k.read outer alternatives (before ++ [part]) rest
    refine ⟨parts, last, ?_, ?_⟩
    · rw [hparts, List.append_assoc, List.singleton_append]
    · rw [List.append_assoc, h.read, List.cons_append, readType?, hread]

private theorem Alternatives.read (outer : List Frame) (before : List TypeTree)
    (rest : List TypeToken) :
    {tokens : List TypeToken} -> {trees : List TypeTree} -> Alternatives tokens trees ->
    ∃ frame last, frame.alternatives ++ [intersectionOf (frame.parts ++ [last])] =
        before ++ trees ∧
      readType? outer ⟨before, []⟩ none (tokens ++ rest) =
        readType? outer frame (some last) rest
  | _, _, .one h => by
    obtain ⟨parts, last, hparts, hread⟩ := h.read outer before [] rest
    exact ⟨⟨before, parts⟩, last, by rw [hparts, List.nil_append], hread⟩
  | _, _, @Alternatives.more _ others parts _ h k => by
    obtain ⟨inner, final, hparts, hfirst⟩ := h.read outer before [] (.bar :: (others ++ rest))
    obtain ⟨frame, last, hclose, hread⟩ := k.read outer (before ++ [intersectionOf parts]) rest
    refine ⟨frame, last, ?_, ?_⟩
    · rw [hclose, List.append_assoc, List.singleton_append]
    · rw [List.append_assoc, List.cons_append, hfirst, readType?, hparts, List.nil_append, hread]

end

private theorem Alternatives.readType?_eq {tokens : List TypeToken} {trees : List TypeTree}
    (h : Alternatives tokens trees) : readType? [] ⟨[], []⟩ none tokens = some (unionOf trees) := by
  obtain ⟨frame, last, hclose, hread⟩ := h.read [] [] []
  rw [List.append_nil] at hread
  rw [hread, readType?, Frame.close, hclose, List.nil_append]

/-- No text consists of two different trees. -/
theorem Parses.unique {text : String} {tree other : TypeTree} (h : Parses text tree)
    (k : Parses text other) : tree = other := by
  obtain ⟨tokens, _, htokens, htrees, rfl⟩ := h
  obtain ⟨_, _, hsame, hothers, rfl⟩ := k
  obtain rfl := Option.some.inj (htokens.symm.trans hsame)
  exact Option.some.inj (htrees.readType?_eq.symm.trans hothers.readType?_eq)

end Unambiguous

end LexiconCompiler.TypeScript
