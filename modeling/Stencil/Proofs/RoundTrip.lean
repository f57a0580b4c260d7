import Stencil.Proofs.Grammar
import Stencil.Proofs.References

set_option autoImplicit false

/-!
# Written expressions

An expression in its canonical text compiles to exactly that expression: each name stands in
brackets, texts in double quotes and inner calls in parentheses.
-/
namespace Stencil

def escapeChar (c : Char) : List Char := if c = '"' ∨ c = '\\' then ['\\', c] else [c]

def backslashed (cs : List Char) : List Char := cs.flatMap escapeChar

/-- A constant as it is written; other values have no canonical text. -/
def Value.print : Value → List Char
  | .string text => '"' :: (backslashed text.toList ++ ['"'])
  | .bool true => "true".toList
  | .bool false => "false".toList
  | _ => []

mutual

def Expr.print : Expr → List Char
  | .const v => v.print
  | .reference r _ => r.print
  | .call ⟨name, _, args, hash⟩ =>
    '(' :: (name.toList ++ (printArgs args ++ printHash hash) ++ [')'])

def printArgs : List Expr → List Char
  | [] => []
  | e :: rest => ' ' :: e.print ++ printArgs rest

def printHash : List (String × Expr) → List Char
  | [] => []
  | (key, e) :: rest => ' ' :: (bracketed key ++ '=' :: e.print) ++ printHash rest

end

/-- An expression as it stands between the braces of a tag: the outermost call has no
parentheses. -/
def Expr.printInside : Expr → List Char
  | .call ⟨name, _, args, hash⟩ => name.toList ++ (printArgs args ++ printHash hash)
  | e => e.print

/-- The heads that a call can be written with, and the name of the call. Without arguments a
reference would be no call. -/
inductive Callable (d : Dialect) : String → Head → Bool → Prop
  | helper {name : String} {h : Helper} {bare : Bool} (brackets : InBrackets name)
    (registered : d.helpers.get? name = some h) :
    Callable d (String.ofList (bracketed name)) (.helper h) bare
  | value {r : Reference} (brackets : ∀ name ∈ r.names, InBrackets name) :
    Callable d (String.ofList r.print) (.value r d.callFallback) false

inductive Printable (d : Dialect) : Expr → Prop
  | string (text : String) : Printable d (.const (.string text))
  | bool (b : Bool) : Printable d (.const (.bool b))
  | reference {r : Reference} (brackets : ∀ name ∈ r.names, InBrackets name) :
    Printable d (.reference r true)
  | call {name : String} {head : Head} {args : List Expr} {hash : List (String × Expr)}
    (callable : Callable d name head (args.isEmpty && hash.isEmpty))
    (positional : ∀ e ∈ args, Printable d e) (brackets : ∀ entry ∈ hash, InBrackets entry.1)
    (named : ∀ entry ∈ hash, Printable d entry.2) : Printable d (.call ⟨name, head, args, hash⟩)

theorem closeQuote_backslashed (cs rest : List Char) :
    Token.closeQuote '"' (backslashed cs ++ '"' :: rest) = some (backslashed cs ++ ['"'], rest) := by
  induction cs with
  | nil => rfl
  | cons c cs ih =>
    have hcons : backslashed (c :: cs) = escapeChar c ++ backslashed cs := rfl
    rw [hcons, List.append_assoc, List.append_assoc]
    unfold escapeChar
    by_cases hc : c = '"' ∨ c = '\\'
    · have hnewline : c ≠ '\n' := by
        rintro rfl
        rcases hc with h | h <;> cases h
      rw [if_pos hc, List.cons_append, List.cons_append, List.nil_append, Token.closeQuote,
        if_neg hnewline, ih]
      rfl
    · have hquote : c ≠ '"' := fun h => hc (.inl h)
      have hslash : c ≠ '\\' := fun h => hc (.inr h)
      rw [if_neg hc, List.cons_append, List.nil_append, Token.closeQuote_cons hslash,
        if_neg hquote, ih]
      rfl

theorem unescape_cons {c : Char} (hc : c ≠ '\\') (cs : List Char) :
    Text.unescape (c :: cs) = c :: Text.unescape cs := by
  rw [Text.unescape]
  intro d ds h _
  exact hc h

theorem unescape_backslashed (cs : List Char) : Text.unescape (backslashed cs) = cs := by
  induction cs with
  | nil => rfl
  | cons c cs ih =>
    have hcons : backslashed (c :: cs) = escapeChar c ++ backslashed cs := rfl
    rw [hcons]
    unfold escapeChar
    by_cases hc : c = '"' ∨ c = '\\'
    · have hnewline : c ≠ '\n' := by
        rintro rfl
        rcases hc with h | h <;> cases h
      rw [if_pos hc, List.cons_append, List.cons_append, List.nil_append, Text.unescape,
        if_neg hnewline, ih]
    · rw [if_neg hc, List.singleton_append, unescape_cons fun h => hc (.inr h), ih]

/-- A text is read as an operand wherever an end follows, and it does not begin with a name. -/
def Legible (d : Dialect) (text : List Char) (e : Expr) : Prop :=
  ∀ {x : Char} {xs : List Char} {behind : Cursor}, Ends x → behind.At (x :: xs) →
    ∃ c : Cursor, c.At (text ++ x :: xs) ∧ c.token.kind ≠ .ident ∧ c.token.kind ≠ .space ∧
      Cursor.Gives (c.operand? d) (some e) behind

section
open Cursor
variable {d : Dialect}

theorem legible_reference (d : Dialect) {r : Reference} (h : ∀ name ∈ r.names, InBrackets name) :
    Legible d r.print (d.reference r) := by
  intro x xs behind hx hbehind
  obtain ⟨c, hc, hident, hspace, hle, hreference⟩ := reference_gives h hx hbehind
  refine ⟨c, hc, hident, hspace, hle, ?_⟩
  rw [operand?, hreference, ok_bind]
  rfl

theorem operand?_const {c behind : Cursor} {v : Value} (hbehind : behind.At c.rest)
    (hkind : c.token.kind = .const ∨ c.token.kind = .trueWord ∨ c.token.kind = .falseWord)
    (hvalue : c.token.value? = some v) : Gives (c.operand? d) (some (.const v)) behind := by
  have hne : ∀ {kind : TokenKind}, kind ≠ .const ∧ kind ≠ .trueWord ∧ kind ≠ .falseWord →
      c.token.kind ≠ kind := by
    intro kind hother heq
    rw [heq] at hkind
    rcases hkind with h | h | h
    · exact hother.1 h
    · exact hother.2.1 h
    · exact hother.2.2 h
  have hreference := reference?_eq_none (c := c) (hne (by decide)) (hne (by decide))
    (hne (by decide)) (hne (by decide))
  refine ⟨Nat.le_of_lt hbehind.lt, ?_⟩
  rw [operand?, hreference, ok_bind]
  dsimp only [here]
  rw [hvalue]
  dsimp only
  rw [next_eq hbehind, ok_bind]
  rfl

theorem legible_string (text : String) :
    Legible d (Value.print (.string text)) (.const (.string text)) := by
  intro x xs behind hx hbehind
  let c : Cursor := ⟨⟨.const, '"' :: (backslashed text.toList ++ ['"'])⟩, x :: xs⟩
  have hat : c.At (Value.print (.string text) ++ x :: xs) := by
    apply Token.read_of_composite?
    have hquote : Token.quotation? ('"' :: (backslashed text.toList ++ '"' :: x :: xs)) =
        some ('"' :: (backslashed text.toList ++ ['"']), x :: xs) := by
      change Option.map _ (Token.closeQuote '"' (backslashed text.toList ++ '"' :: x :: xs)) = _
      rw [closeQuote_backslashed]
      rfl
    change Token.composite? ('"' :: ((backslashed text.toList ++ ['"']) ++ x :: xs)) = _
    rw [List.append_assoc, Token.composite?_of_quote (.inl rfl)]
    change Token.tokenOf _ (Token.quotation? ('"' :: (backslashed text.toList ++ '"' :: x :: xs))) = _
    rw [hquote]
    rfl
  have hkind : c.token.kind = .const := rfl
  have hvalue : c.token.value? = some (.string text) := by
    change some (Value.string (String.ofList
      (Text.unescape (backslashed text.toList ++ ['"']).dropLast))) = _
    rw [List.dropLast_concat, unescape_backslashed, String.ofList_toList]
  exact ⟨c, hat, kind_ne hkind (by decide), kind_ne hkind (by decide),
    operand?_const hbehind (.inl hkind) hvalue⟩

theorem legible_bool (b : Bool) : Legible d (Value.print (.bool b)) (.const (.bool b)) := by
  intro x xs behind hx hbehind
  cases b with
  | true =>
    let c : Cursor := ⟨⟨.trueWord, "true".toList⟩, x :: xs⟩
    have hat : c.At ("true".toList ++ x :: xs) :=
      Token.read_run (by decide) (List.all_eq_true.1 (by decide)) hx.endsName.name xs
        (Token.number?_append_none (by decide) (by decide) hx.endsName.digit xs)
    have hkind : c.token.kind = .trueWord := rfl
    exact ⟨c, hat, kind_ne hkind (by decide), kind_ne hkind (by decide),
      operand?_const hbehind (.inr (.inl hkind)) rfl⟩
  | false =>
    let c : Cursor := ⟨⟨.falseWord, "false".toList⟩, x :: xs⟩
    have hat : c.At ("false".toList ++ x :: xs) :=
      Token.read_run (by decide) (List.all_eq_true.1 (by decide)) hx.endsName.name xs
        (Token.number?_append_none (by decide) (by decide) hx.endsName.digit xs)
    have hkind : c.token.kind = .falseWord := rfl
    exact ⟨c, hat, kind_ne hkind (by decide), kind_ne hkind (by decide),
      operand?_const hbehind (.inr (.inr hkind)) rfl⟩

end

def Argument.print : Argument → List Char
  | .positional e => e.print
  | .named key e => bracketed key ++ '=' :: e.print

def LegibleArgument (d : Dialect) (a : Argument) : Prop :=
  ∀ {x : Char} {xs : List Char} {behind : Cursor}, Ends x → behind.At (x :: xs) →
    ∃ c : Cursor, c.At (a.print ++ x :: xs) ∧ c.token.kind ≠ .space ∧
      Cursor.Gives (c.argument? d) (some a) behind

section
open Cursor
variable {d : Dialect} {e : Expr}

theorem legible_positional (h : Legible d e.print e) : LegibleArgument d (.positional e) := by
  intro x xs behind hx hbehind
  obtain ⟨c, hc, hident, hspace, hle, hoperand⟩ := h hx hbehind
  refine ⟨c, hc, hspace, hle, ?_⟩
  rw [argument?, names?_eq_none hident, ok_bind]
  dsimp only [here]
  rw [hoperand, ok_bind]
  rfl

theorem endsName_equals : EndsName '=' := ⟨by decide, by decide⟩

theorem legible_named (h : Legible d e.print e) {key : String} (hkey : InBrackets key) :
    LegibleArgument d (.named key e) := by
  intro x xs behind hx hbehind
  obtain ⟨value, hvalue, -, -, hle, hoperand⟩ := h hx hbehind
  let p := pathOf key [] hkey (fun name hname => nomatch hname)
  let equals : Cursor := ⟨⟨.equals, ['=']⟩, e.print ++ x :: xs⟩
  have hequals : equals.At ('=' :: (e.print ++ x :: xs)) := Token.read_symbol rfl _
  obtain ⟨c, hc, htoken⟩ := p.at_text endsName_equals (e.print ++ x :: xs)
  have hsep : ¬ (equals.token.kind = .dot ∨ equals.token.kind = .slash) := by
    rintro (h | h) <;> cases h
  obtain ⟨hle', hnames⟩ := p.names?_text endsName_equals hc hequals hsep
  have hpath : stepsOf "" p.first p.later = [("", key)] := by
    change [("", nameOf (bracketed key))] = _
    rw [nameOf_bracketed]
  have htext : (Argument.named key e).print ++ x :: xs = p.text ++ '=' :: (e.print ++ x :: xs) := by
    have hp : p.text = bracketed key := List.append_nil _
    rw [hp]
    exact List.append_assoc _ _ _
  have hkind : c.token.kind = .ident := by rw [htoken]
  have heat : equals.eat .equals = .ok (some ⟨value, hvalue.lt⟩) := eat_eq_some rfl hvalue
  have hlt : value.rest.length < equals.rest.length := hvalue.lt
  rw [hpath] at hnames
  refine ⟨c, htext ▸ hc, kind_ne hkind (by decide),
    Nat.le_trans hle (Nat.le_trans (Nat.le_of_lt hlt) hle'), ?_⟩
  rw [argument?, hnames, ok_bind]
  dsimp only
  rw [heat, ok_bind]
  dsimp only
  rw [hoperand, ok_bind]
  rfl

theorem at_blanks {blanks cs : List Char} (hne : blanks ≠ [])
    (hblanks : ∀ c ∈ blanks, Text.isBlank c = true) {c : Cursor} (hc : c.At cs)
    (hspace : c.token.kind ≠ .space) : At ⟨⟨.space, blanks⟩, cs⟩ (blanks ++ cs) := by
  have hcs : cs ≠ [] := by
    rintro rfl
    exact absurd hc.lt (Nat.not_lt_zero _)
  obtain ⟨y, ys, rfl⟩ := List.exists_cons_of_ne_nil hcs
  have hy : Text.isBlank y = false := by
    cases hblank : Text.isBlank y with
    | false => rfl
    | true => exact absurd (kind_of_blank hblank hc) hspace
  exact Token.read_space hne hblanks hy ys

theorem arguments_gives {args : List Argument} (h : ∀ a ∈ args, LegibleArgument d a) {x : Char}
    {xs : List Char} (hx : Ends x) {behind stop : Cursor} (hbehind : behind.At (x :: xs))
    (hstop : Gives (behind.arguments d) [] stop) :
    ∃ (y : Char) (ys : List Char) (c : Cursor),
      (args.flatMap fun a => ' ' :: a.print) ++ x :: xs = y :: ys ∧ Ends y ∧ c.At (y :: ys) ∧
        Gives (c.arguments d) args stop := by
  induction args with
  | nil => exact ⟨x, xs, behind, rfl, hx, hbehind, hstop⟩
  | cons a args ih =>
    obtain ⟨y, ys, later, htext, hy, hlater, hle, hargs⟩ :=
      ih fun a ha => h a (List.mem_cons_of_mem _ ha)
    obtain ⟨c, hc, hspace, hle', hargument⟩ := h a List.mem_cons_self hy hlater
    let space : Cursor := ⟨⟨.space, [' ']⟩, a.print ++ y :: ys⟩
    have heat : space.eat .space = .ok (some ⟨c, hc.lt⟩) := eat_eq_some rfl hc
    have hlt : c.rest.length < space.rest.length := hc.lt
    have hat : space.At (' ' :: (a.print ++ y :: ys)) :=
      at_blanks (List.cons_ne_nil ' ' []) (List.all_eq_true.1 rfl) hc hspace
    refine ⟨' ', a.print ++ y :: ys, space, ?_, .inl (by decide), hat, ?_⟩
    · rw [List.flatMap_cons, List.append_assoc, htext]
      rfl
    · refine ⟨Nat.le_trans hle (Nat.le_trans hle' (Nat.le_of_lt hlt)), ?_⟩
      rw [arguments, heat, ok_bind]
      dsimp only
      rw [hargument, ok_bind]
      dsimp only
      rw [hargs]
      rfl

theorem readsArguments_single {text : List Char} {a : Argument} {c : Cursor}
    (hc : c.At (text ++ ['\x7d', '\x7d'])) (hspace : c.token.kind ≠ .space)
    (h : Gives (c.argument? d) (some a) (brace ['\x7d'])) : ReadsArguments d (' ' :: text) [a] := by
  have hbrace := at_brace ['\x7d']
  have hnone : (brace ['\x7d']).arguments d = .ok (here _ []) := by
    rw [arguments, eat_eq_none (by decide : TokenKind.brace ≠ .space)]
    rfl
  obtain ⟨hle, hargument⟩ := h
  let space : Cursor := ⟨⟨.space, [' ']⟩, text ++ ['\x7d', '\x7d']⟩
  have hat : space.At (' ' :: (text ++ ['\x7d', '\x7d'])) :=
    at_blanks (List.cons_ne_nil ' ' []) (List.all_eq_true.1 rfl) hc hspace
  have heat : space.eat .space = .ok (some ⟨c, hc.lt⟩) := eat_eq_some rfl hc
  have hlt : c.rest.length < space.rest.length := hc.lt
  have harguments : space.arguments d =
      .ok ⟨[a], brace ['\x7d'], Nat.le_trans hle (Nat.le_of_lt hlt)⟩ := by
    rw [arguments, heat, ok_bind]
    dsimp only
    rw [hargument, ok_bind]
    dsimp only
    rw [hnone]
    rfl
  obtain ⟨b, hb, htilde, hrest⟩ := closer_brace []
  exact ⟨.inr ⟨' ', text, rfl, rfl⟩, space, hat, _, b, harguments, rfl, hb, htilde, hrest⟩

theorem LegibleArgument.reads {a : Argument} (h : LegibleArgument d a) :
    ReadsArguments d (' ' :: a.print) [a] := by
  obtain ⟨c, hc, hspace, hgives⟩ := h (.inr (.inr rfl)) (at_brace ['\x7d'])
  exact readsArguments_single hc hspace hgives

theorem readsArguments_path (d : Dialect) (p : Path) :
    ReadsArguments d (' ' :: p.text) [.positional (d.reference ⟨false, 0, p.names⟩)] := by
  have hbrace := at_brace ['\x7d']
  obtain ⟨c, hc, htoken⟩ := p.at_text endsName_brace ['\x7d']
  obtain ⟨hle, hnames⟩ := p.names?_text endsName_brace hc hbrace (brace_not_separator _)
  have hspace : c.token.kind ≠ .space := by
    rw [htoken]
    exact nofun
  refine readsArguments_single hc hspace ⟨hle, ?_⟩
  have heat : (brace ['\x7d']).eat .equals = .ok none :=
    eat_eq_none (by decide : TokenKind.brace ≠ .equals)
  have hpath := map_snd_stepsOf "" p.first p.later
  rw [argument?, hnames, ok_bind]
  unfold Path.names
  rw [← hpath]
  cases hsteps : stepsOf "" p.first p.later with
  | nil => cases hlater : p.later <;> rw [hlater] at hsteps <;> cases hsteps
  | cons step steps =>
    cases steps with
    | nil =>
      dsimp only
      rw [heat]
      rfl
    | cons => rfl

end

def argumentsOf (args : List Expr) (hash : List (String × Expr)) : List Argument :=
  args.map .positional ++ hash.map fun entry => .named entry.1 entry.2

theorem filterMap_positional? (args : List Expr) (hash : List (String × Expr)) :
    (argumentsOf args hash).filterMap Argument.positional? = args := by
  unfold argumentsOf
  rw [List.filterMap_append, List.filterMap_map, List.filterMap_map]
  have hargs : (Argument.positional? ∘ Argument.positional) = some := rfl
  have hhash : (Argument.positional? ∘ fun entry : String × Expr => .named entry.1 entry.2) =
      fun _ => none := rfl
  rw [hargs, hhash, List.filterMap_some]
  simp

theorem filterMap_named? (args : List Expr) (hash : List (String × Expr)) :
    (argumentsOf args hash).filterMap Argument.named? = hash := by
  unfold argumentsOf
  rw [List.filterMap_append, List.filterMap_map, List.filterMap_map]
  have hargs : (Argument.named? ∘ Argument.positional) = fun _ => none := rfl
  have hhash : (Argument.named? ∘ fun entry : String × Expr => .named entry.1 entry.2) =
      some := rfl
  rw [hargs, hhash, List.filterMap_some]
  simp

theorem printArgs_eq (args : List Expr) :
    printArgs args = (args.map Argument.positional).flatMap fun a => ' ' :: a.print := by
  induction args with
  | nil => rfl
  | cons e args ih =>
    rw [printArgs, ih]
    rfl

theorem printHash_eq (hash : List (String × Expr)) :
    printHash hash =
      (hash.map fun entry => Argument.named entry.1 entry.2).flatMap fun a => ' ' :: a.print := by
  induction hash with
  | nil => rfl
  | cons entry hash ih =>
    obtain ⟨key, e⟩ := entry
    rw [printHash, ih]
    rfl

theorem print_argumentsOf (args : List Expr) (hash : List (String × Expr)) :
    printArgs args ++ printHash hash =
      (argumentsOf args hash).flatMap fun a => ' ' :: a.print := by
  unfold argumentsOf
  rw [List.flatMap_append, printArgs_eq, printHash_eq]

section
open Cursor
variable {d : Dialect} {name : String} {head : Head} {bare : Bool} {x : Char} {xs : List Char}
  {behind stop : Cursor}

theorem head_gives (h : Callable d name head bare) (hx : Ends x) (hbehind : behind.At (x :: xs)) :
    ∃ c : Cursor, c.At (name.toList ++ x :: xs) ∧ c.token.kind ≠ .space ∧
      Gives (c.head d d.callFallback) head behind := by
  cases h with
  | @helper name h _ brackets registered =>
    let p := pathOf name [] brackets (fun name hname => nomatch hname)
    have htext : p.text = bracketed name := List.append_nil _
    have hhead : p.head d d.callFallback = .helper h := by
      have hnames : p.names = [name] := congrArg (· :: []) (nameOf_bracketed name)
      unfold Path.head
      rw [hnames]
      dsimp only
      rw [registered]
      rfl
    have hsep : ¬ (behind.token.kind = .dot ∨ behind.token.kind = .slash) := by
      rintro (h | h)
      · exact hx.kind_ne hbehind (by decide) h
      · exact hx.kind_ne hbehind (by decide) h
    obtain ⟨c, hc, htoken⟩ := p.at_text hx.endsName xs
    have hkind : c.token.kind = .ident := by rw [htoken]
    have hgives := p.head_text hx.endsName hc hbehind hsep d d.callFallback
    rw [htext] at hc
    rw [hhead] at hgives
    rw [String.toList_ofList]
    exact ⟨c, hc, kind_ne hkind (by decide), hgives⟩
  | @value r brackets =>
    obtain ⟨c, hc, hident, hspace, hle, hreference⟩ := reference_gives brackets hx hbehind
    rw [String.toList_ofList]
    refine ⟨c, hc, hspace, hle, ?_⟩
    unfold Cursor.head
    rw [names?_eq_none hident, ok_bind]
    dsimp only [here]
    rw [hreference, ok_bind]
    rfl

theorem isBare_eq (h : Callable d name head bare) {args : List Expr} {hash : List (String × Expr)}
    (hbare : bare = (args.isEmpty && hash.isEmpty)) :
    Call.isBare ⟨name, head, args, hash⟩ = false := by
  cases h with
  | helper => rfl
  | value => exact hbare.symm

/-- A call without parentheses is read up to where no argument follows. -/
theorem call_gives {args : List Expr} {hash : List (String × Expr)}
    (hcallable : Callable d name head (args.isEmpty && hash.isEmpty))
    (h : ∀ a ∈ argumentsOf args hash, LegibleArgument d a) (hd : d.knownHelpersOnly = false)
    (hx : Ends x) (hbehind : behind.At (x :: xs)) (hstop : Gives (behind.arguments d) [] stop) :
    ∃ c : Cursor, c.At (Expr.printInside (.call ⟨name, head, args, hash⟩) ++ x :: xs) ∧
      c.token.kind ≠ .space ∧
      Gives (c.expression d) (.call ⟨name, head, args, hash⟩) stop := by
  obtain ⟨y, ys, later, htext, hy, hlater, hle, hargs⟩ := arguments_gives h hx hbehind hstop
  obtain ⟨c, hc, hspace, hle', hhead⟩ := head_gives hcallable hy hlater
  have hinside : Expr.printInside (.call ⟨name, head, args, hash⟩) ++ x :: xs =
      name.toList ++ y :: ys := by
    change (name.toList ++ (printArgs args ++ printHash hash)) ++ x :: xs = _
    rw [List.append_assoc, print_argumentsOf, htext]
  have hcall : c.call d d.callFallback =
      .ok ⟨⟨name, head, args, hash⟩, stop, Nat.le_trans hle hle'⟩ := by
    rw [Cursor.call, hhead, ok_bind]
    dsimp only
    rw [hargs, ok_bind]
    dsimp only
    rw [upTo_eq hc hlater, String.ofList_toList, filterMap_positional?, filterMap_named?]
    rfl
  rw [hinside]
  refine ⟨c, hc, hspace, Nat.le_trans hle hle', ?_⟩
  rw [expression, hcall, ok_bind]
  dsimp only
  rw [isBare_eq hcallable rfl, if_neg Bool.false_ne_true, Call.allowed_of_lenient hd]
  rfl

theorem legible_call {args : List Expr} {hash : List (String × Expr)}
    (hcallable : Callable d name head (args.isEmpty && hash.isEmpty))
    (h : ∀ a ∈ argumentsOf args hash, LegibleArgument d a) (hd : d.knownHelpersOnly = false) :
    Legible d (Expr.print (.call ⟨name, head, args, hash⟩)) (.call ⟨name, head, args, hash⟩) := by
  intro x xs behind hx hbehind
  let close : Cursor := ⟨⟨.rightParen, [')']⟩, x :: xs⟩
  have hclose : close.At (')' :: x :: xs) := Token.read_symbol rfl _
  have hstop : Gives (close.arguments d) [] close := by
    refine ⟨Nat.le_refl _, ?_⟩
    have hkind : close.token.kind = .rightParen := rfl
    rw [arguments, eat_eq_none (kind_ne hkind (by decide))]
    rfl
  obtain ⟨c, hc, hspace, hle, hexpression⟩ :=
    call_gives hcallable h hd (.inr (.inl rfl)) hclose hstop
  let opened : Cursor := ⟨⟨.leftParen, ['(']⟩,
    Expr.printInside (.call ⟨name, head, args, hash⟩) ++ ')' :: x :: xs⟩
  have hopened : opened.At (Expr.print (.call ⟨name, head, args, hash⟩) ++ x :: xs) := by
    change opened.At ('(' :: ((Expr.printInside (.call ⟨name, head, args, hash⟩) ++ [')']) ++
      x :: xs))
    rw [List.append_assoc]
    exact Token.read_symbol rfl _
  have hkind : opened.token.kind = .leftParen := rfl
  have hreference := reference?_eq_none (kind_ne hkind (by decide)) (kind_ne hkind (by decide))
    (kind_ne hkind (by decide)) (kind_ne hkind (by decide))
  have heat : opened.eat .leftParen = .ok (some ⟨c, hc.lt⟩) := eat_eq_some hkind hc
  have hexpect : close.expect .rightParen = .ok ⟨behind, hbehind.lt⟩ := expect_eq rfl hbehind
  have hopen : c.rest.length < opened.rest.length := hc.lt
  have hend : behind.rest.length < close.rest.length := hbehind.lt
  refine ⟨opened, hopened, kind_ne hkind (by decide), kind_ne hkind (by decide), ?_, ?_⟩
  · exact Nat.le_of_lt (Nat.lt_of_lt_of_le hend (Nat.le_trans hle (Nat.le_of_lt hopen)))
  · have hvalue : opened.token.value? = none := rfl
    rw [operand?, hreference, ok_bind]
    dsimp only [here]
    rw [hvalue]
    dsimp only
    rw [heat, ok_bind]
    dsimp only
    rw [skip_eq_false hspace, ok_bind]
    dsimp only [here]
    rw [hexpression, ok_bind]
    dsimp only
    rw [hexpect]
    rfl

theorem mem_argumentsOf {args : List Expr} {hash : List (String × Expr)}
    (hargs : ∀ e ∈ args, Legible d e.print e) (hkeys : ∀ entry ∈ hash, InBrackets entry.1)
    (hhash : ∀ entry ∈ hash, Legible d entry.2.print entry.2) :
    ∀ a ∈ argumentsOf args hash, LegibleArgument d a := by
  intro a ha
  rcases List.mem_append.1 ha with ha | ha
  · obtain ⟨e, he, rfl⟩ := List.mem_map.1 ha
    exact legible_positional (hargs e he)
  · obtain ⟨entry, hentry, rfl⟩ := List.mem_map.1 ha
    exact legible_named (hhash entry hentry) (hkeys entry hentry)

/-- The canonical text of an operand is read as that operand. -/
theorem Printable.legible {e : Expr} (h : Printable d e) (hd : d.knownHelpersOnly = false)
    (hf : d.noFunctionValues = false) : Legible d e.print e := by
  induction h with
  | string text => exact legible_string text
  | bool b => exact legible_bool b
  | @reference r brackets =>
    have hlegible : Legible d r.print (d.reference r) := legible_reference d brackets
    unfold Dialect.reference at hlegible
    rwa [hf] at hlegible
  | call callable _ brackets _ ihargs ihhash =>
    exact legible_call callable (mem_argumentsOf ihargs brackets ihhash) hd

/-- The canonical text of a call or a reference is read inside a tag. -/
theorem inside_gives {e : Expr} (h : Printable d e) (htop : ∀ v, e ≠ .const v)
    (hd : d.knownHelpersOnly = false) (hf : d.noFunctionValues = false) (hx : Ends x)
    (hbehind : behind.At (x :: xs)) (hstop : Gives (behind.arguments d) [] stop) :
    ∃ c after : Cursor, c.At (e.printInside ++ x :: xs) ∧ c.token.kind ≠ .space ∧
      (after = behind ∨ after = stop) ∧ Gives (c.expression d) e after := by
  cases h with
  | string text => exact absurd rfl (htop _)
  | bool b => exact absurd rfl (htop _)
  | call callable positional brackets named =>
    have hargs := mem_argumentsOf (fun e he => (positional e he).legible hd hf) brackets
      fun entry hentry => (named entry hentry).legible hd hf
    obtain ⟨c, hc, hspace, hexpression⟩ := call_gives callable hargs hd hx hbehind hstop
    exact ⟨c, stop, hc, hspace, .inr rfl, hexpression⟩
  | @reference r brackets =>
    obtain ⟨c, hc, hident, hspace, hle, hreference⟩ := reference_gives brackets hx hbehind
    obtain ⟨hle', hnone⟩ := hstop
    refine ⟨c, behind, hc, hspace, .inl rfl, hle, ?_⟩
    have hhead : c.head d d.callFallback = .ok ⟨.value r d.callFallback, behind, hle⟩ := by
      unfold Cursor.head
      rw [names?_eq_none hident, ok_bind]
      dsimp only [here]
      rw [hreference, ok_bind]
      rfl
    have hcall : c.call d d.callFallback = .ok ⟨⟨c.upTo behind, .value r d.callFallback, [], []⟩,
        stop, Nat.le_trans hle' hle⟩ := by
      rw [Cursor.call, hhead, ok_bind]
      dsimp only
      rw [hnone]
      rfl
    have hbare : Call.isBare (⟨c.upTo behind, .value r d.callFallback, [], []⟩ : Call Expr) = true :=
      rfl
    rw [expression, hcall, ok_bind]
    dsimp only
    rw [hbare, if_pos rfl, hreference, ok_bind]
    unfold Dialect.reference
    rw [hf]
    rfl

end

namespace Cursor
variable {rest : List Char}

theorem closer_blanks {blanks : List Char} (hblanks : ∀ c ∈ blanks, Text.isBlank c = true)
    (extra : Nat) {c : Cursor} (hc : c.At (blanks ++ (List.replicate (extra + 2) '\x7d' ++ rest))) :
    ∃ b, c.closer extra = .ok b ∧ b.result = false ∧ b.cursor.rest = rest := by
  let first := brace (List.replicate (extra + 1) '\x7d' ++ rest)
  have hkind : first.token.kind = .brace := rfl
  have hfirst : first.At (List.replicate (extra + 2) '\x7d' ++ rest) := at_brace _
  have htilde := skip_eq_false (c := first) (hkind ▸ by decide : first.token.kind ≠ .tilde)
  obtain ⟨hle, hbraces⟩ := braces_gives (extra + 1) rest
  have hskip : ∃ (b : Bool) (h : first.rest.length ≤ c.rest.length),
      c.skip .space = .ok ⟨b, first, h⟩ := by
    by_cases hne : blanks = []
    · subst hne
      obtain rfl := hc.eq hfirst
      exact ⟨false, Nat.le_refl _, skip_eq_false (fun h : TokenKind.brace = .space => nomatch h)⟩
    · have hspace := Token.read_space hne hblanks (by decide : Text.isBlank '\x7d' = false)
        (List.replicate (extra + 1) '\x7d' ++ rest)
      obtain rfl := hc.eq hspace
      exact ⟨true, Nat.le_of_lt hfirst.lt, skip_eq_true rfl hfirst⟩
  obtain ⟨b, h, hskip⟩ := hskip
  refine ⟨⟨false, brace rest, Nat.le_trans hle h⟩, ?_, rfl, rfl⟩
  unfold closer
  rw [hskip, ok_bind]
  dsimp only
  rw [htilde, ok_bind]
  dsimp only [here]
  rw [hbraces, ok_bind]
  rfl

theorem arguments_blanks {blanks : List Char} (hblanks : ∀ c ∈ blanks, Text.isBlank c = true)
    (d : Dialect) {c : Cursor} (hc : c.At (blanks ++ '\x7d' :: rest)) :
    Gives (c.arguments d) [] (brace rest) := by
  have hbrace := at_brace rest
  have hkind : (brace rest).token.kind = .brace := rfl
  by_cases hne : blanks = []
  · subst hne
    obtain rfl := hc.eq hbrace
    refine ⟨Nat.le_refl _, ?_⟩
    rw [arguments, eat_eq_none (kind_ne hkind (by decide))]
    rfl
  · have hspace := Token.read_space hne hblanks (by decide : Text.isBlank '\x7d' = false) rest
    obtain rfl := hc.eq hspace
    have heat : eat .space ⟨⟨.space, blanks⟩, '\x7d' :: rest⟩ = .ok (some ⟨brace rest, hbrace.lt⟩) :=
      eat_eq_some rfl hbrace
    have hreference := reference?_eq_none (kind_ne hkind (by decide)) (kind_ne hkind (by decide))
      (kind_ne hkind (by decide)) (kind_ne hkind (by decide))
    have hoperand : (brace rest).operand? d = .ok ((brace rest).here none) := by
      have hvalue : (brace rest).token.value? = none := rfl
      rw [operand?, hreference, ok_bind]
      dsimp only [here]
      rw [hvalue]
      dsimp only
      rw [eat_eq_none (kind_ne hkind (by decide))]
      rfl
    have hargument : (brace rest).argument? d = .ok ((brace rest).here none) := by
      rw [argument?, names?_eq_none (kind_ne hkind (by decide)), ok_bind]
      dsimp only [here]
      rw [hoperand]
      rfl
    refine ⟨Nat.le_of_lt hbrace.lt, ?_⟩
    rw [arguments, heat, ok_bind]
    dsimp only
    rw [hargument]
    rfl

theorem enter_blanks {blanks cs : List Char} (hblanks : ∀ c ∈ blanks, Text.isBlank c = true)
    {c : Cursor} (hc : c.At cs) (hspace : c.token.kind ≠ .space) :
    ∃ h, enter (blanks ++ cs) = .ok ⟨c, h⟩ := by
  by_cases hne : blanks = []
  · subst hne
    exact ⟨hc.lt, enter_eq hc hspace⟩
  · have hat := at_blanks hne hblanks hc hspace
    have hskip : skip .space ⟨⟨.space, blanks⟩, cs⟩ = .ok ⟨true, c, Nat.le_of_lt hc.lt⟩ :=
      skip_eq_true rfl hc
    refine ⟨Nat.lt_trans hc.lt hat.lt, ?_⟩
    unfold enter
    rw [start_eq hat, ok_bind]
    dsimp only
    rw [hskip]
    rfl

end Cursor

section
open Cursor
variable {d : Dialect} {e : Expr} {before after : List Char}

theorem readsValue_inside (h : Printable d e) (htop : ∀ v, e ≠ .const v)
    (hd : d.knownHelpersOnly = false) (hf : d.noFunctionValues = false)
    (hbefore : ∀ c ∈ before, Text.isBlank c = true) (hafter : ∀ c ∈ after, Text.isBlank c = true)
    (extra : Nat) :
    ReadsValue d extra (before ++ e.printInside ++ after ++ List.replicate (extra + 2) '\x7d') e := by
  have hends : ∃ x xs, after ++ List.replicate (extra + 2) '\x7d' = x :: xs ∧ Ends x := by
    cases after with
    | nil => exact ⟨_, _, rfl, .inr (.inr rfl)⟩
    | cons x after => exact ⟨x, _, rfl, .inl (hafter x List.mem_cons_self)⟩
  obtain ⟨x, xs, htext, hx⟩ := hends
  obtain ⟨behind, hbehind⟩ := hx.at xs
  have hat : behind.At (after ++ '\x7d' :: List.replicate (extra + 1) '\x7d') := by
    rw [← htext] at hbehind
    exact hbehind
  have hstop := arguments_blanks hafter d hat
  obtain ⟨c, stop, hc, hspace, hwhich, hle, hexpression⟩ :=
    inside_gives h htop hd hf hx hbehind hstop
  obtain ⟨hlt, henter⟩ := enter_blanks hbefore hc hspace
  have hcloser : ∃ b, stop.closer extra = .ok b ∧ b.result = false ∧ b.cursor.rest = [] := by
    have hnone : ∀ c ∈ ([] : List Char), Text.isBlank c = true := fun c hc => nomatch hc
    rcases hwhich with rfl | rfl
    · apply closer_blanks hafter extra
      rw [List.append_nil]
      exact hat
    · apply closer_blanks hnone extra
      rw [List.append_nil]
      exact at_brace _
  obtain ⟨b, hb, htilde, hrest⟩ := hcloser
  rw [List.append_assoc, List.append_assoc, htext]
  exact ⟨_, henter, _, b, hexpression, rfl, hb, htilde, hrest⟩

end

theorem Reference.print_begins (r : Reference) :
    ∃ c cs, r.print = c :: cs ∧ c ∉ Opener.marks := by
  have hups (n : Nat) (cs : List Char) : ∃ ds, ups n ++ '.' :: cs = '.' :: ds := by
    cases n with
    | zero => exact ⟨cs, rfl⟩
    | succ n => exact ⟨_, rfl⟩
  obtain ⟨data, up, names⟩ := r
  cases data with
  | true => exact ⟨'@', _, rfl, by decide⟩
  | false =>
    cases names with
    | nil =>
      cases up with
      | zero => exact ⟨'t', _, rfl, by decide⟩
      | succ up =>
        obtain ⟨ds, hds⟩ := hups up ['.']
        exact ⟨'.', ds, hds, by decide⟩
    | cons first later =>
      cases up with
      | zero => exact ⟨'.', _, rfl, by decide⟩
      | succ up => exact ⟨'.', _, rfl, by decide⟩

theorem printInside_begins {d : Dialect} {e : Expr} (h : Printable d e)
    (htop : ∀ v, e ≠ .const v) : ∃ c cs, e.printInside = c :: cs ∧ c ∉ Opener.marks := by
  cases h with
  | string text => exact absurd rfl (htop _)
  | bool b => exact absurd rfl (htop _)
  | @reference r brackets => exact r.print_begins
  | @call name head args hash callable positional brackets named =>
    generalize (args.isEmpty && hash.isEmpty) = bare at callable
    cases callable with
    | @helper name h _ brackets registered =>
      refine ⟨'[', (name.toList ++ [']']) ++ (printArgs args ++ printHash hash), ?_, by decide⟩
      change (String.ofList (bracketed name)).toList ++ _ = _
      rw [String.toList_ofList]
      rfl
    | @value r brackets =>
      obtain ⟨c, cs, hc, hmarks⟩ := r.print_begins
      refine ⟨c, cs ++ (printArgs args ++ printHash hash), ?_, hmarks⟩
      change (String.ofList r.print).toList ++ _ = _
      rw [String.toList_ofList, hc]
      rfl

theorem blank_not_mark {c : Char} (h : Text.isBlank c = true) : c ∉ Opener.marks := by
  intro hmem
  have hall : Opener.marks.all (fun c => !Text.isBlank c) = true := by decide
  have hnot := List.all_eq_true.1 hall c hmem
  rw [h] at hnot
  cases hnot

def inBraces (n : Nat) (cs : List Char) : List Char :=
  List.replicate n '\x7b' ++ (cs ++ List.replicate n '\x7d')

section
variable {helpers : Dict Helper} {e : Expr} {before after : List Char}

theorem compile_value {cs : List Char} {escape : Bool}
    (h : Written { helpers } [.value escape e] cs) (waiting : Dict String) (shelf : Shelf) :
    (compile { helpers } waiting (String.ofList cs) shelf).1 =
      .ok ⟨String.ofList cs, [valueItem escape e], ⟨[]⟩⟩ := by
  obtain ⟨left, hcompile⟩ := compile_total h waiting shelf
  have hbody : Body [.value escape e] [valueItem escape e] := .value .empty
  rw [hcompile, hbody.total]

/-- The canonical text of a reference or a call, in a tag with two braces or three, compiles to
exactly that expression. -/
theorem compile_inside (h : Printable { helpers } e) (htop : ∀ v, e ≠ .const v)
    (hbefore : ∀ c ∈ before, Text.isBlank c = true) (hafter : ∀ c ∈ after, Text.isBlank c = true)
    (waiting : Dict String) (shelf : Shelf) :
    (compile { helpers } waiting
      (String.ofList (inBraces 2 (before ++ e.printInside ++ after))) shelf).1 =
        .ok ⟨String.ofList (inBraces 2 (before ++ e.printInside ++ after)), [.escaped e], ⟨[]⟩⟩ ∧
    (compile { helpers } waiting
      (String.ofList (inBraces 3 (before ++ e.printInside ++ after))) shelf).1 =
        .ok ⟨String.ofList (inBraces 3 (before ++ e.printInside ++ after)), [.unescaped e],
          ⟨[]⟩⟩ := by
  have hbegins : ∀ c ∈ (before ++ e.printInside ++ after).head?, c ∉ Opener.marks := by
    intro c hc
    cases before with
    | cons b before =>
      obtain rfl : b = c := Option.some.inj hc
      exact blank_not_mark (hbefore b List.mem_cons_self)
    | nil =>
      obtain ⟨y, ys, hy, hmarks⟩ := printInside_begins h htop
      rw [List.nil_append, hy] at hc
      obtain rfl : y = c := Option.some.inj hc
      exact hmarks
  have hbegins3 : ∀ c ∈ (before ++ e.printInside ++ after).head?, c ≠ '\x7b' ∧ c ≠ '~' := by
    intro c hc
    have hmarks := hbegins c hc
    constructor
    · rintro rfl
      exact hmarks (by decide)
    · rintro rfl
      exact hmarks (by decide)
  have htwo := readsValue_inside h htop rfl rfl hbefore hafter 0
  have hthree := readsValue_inside h htop rfl rfl hbefore hafter 1
  have hwritten2 := Written.tag (.escaped hbegins htwo) .nil
  have hwritten3 := Written.tag (.triple hbegins3 hthree) .nil
  rw [List.append_nil] at hwritten2 hwritten3
  exact ⟨compile_value hwritten2 waiting shelf, compile_value hwritten3 waiting shelf⟩

end

theorem compile_inside_call :
    let d : Dialect := { helpers := ⟨[("h", .custom 0)]⟩ }
    let a : Expr := .reference ⟨false, 0, ["a", "b c"]⟩ true
    let inner : Expr := .call ⟨"..", .value ⟨false, 1, []⟩ none, [.const (.bool true)], []⟩
    let e : Expr := .call ⟨"[h]", .helper (.custom 0), [a, inner], [("k", .const (.string "\"\\"))]⟩
    let source := String.ofList
      (inBraces 2 "[h] ./[a].[b c] (.. true) [k]=\"\\\"\\\\\"".toList)
    (compile d ⟨[]⟩ source { library := {}, compiled := ⟨[]⟩ }).1 =
      .ok ⟨source, [.escaped e], ⟨[]⟩⟩ := by
  intro d a inner e source
  have hname (name : String) (hne : name.toList ≠ []) (hclose : ']' ∉ name.toList) :
      InBrackets name := ⟨hne, hclose⟩
  have ha : Printable d a := by
    refine .reference fun name hmem => ?_
    rcases List.mem_cons.1 hmem with rfl | hmem
    · exact hname "a" (by decide) (by decide)
    · rw [List.mem_singleton.1 hmem]
      exact hname "b c" (by decide) (by decide)
  have hinner : Printable d inner := by
    refine .call (.value (r := ⟨false, 1, []⟩) fun name hmem => nomatch hmem) ?_
      (fun entry hmem => nomatch hmem) (fun entry hmem => nomatch hmem)
    intro x hx
    rw [List.mem_singleton.1 hx]
    exact .bool true
  have he : Printable d e := by
    refine .call (.helper (hname "h" (by decide) (by decide)) rfl) ?_ ?_ ?_
    · intro x hx
      rcases List.mem_cons.1 hx with rfl | hx
      · exact ha
      · rw [List.mem_singleton.1 hx]
        exact hinner
    · intro entry hentry
      rw [List.mem_singleton.1 hentry]
      exact hname "k" (by decide) (by decide)
    · intro entry hentry
      rw [List.mem_singleton.1 hentry]
      exact .string _
  have hnone : ∀ c ∈ ([] : List Char), Text.isBlank c = true := fun c hc => nomatch hc
  exact (compile_inside he (fun v hv => nomatch hv) hnone hnone ⟨[]⟩
    { library := {}, compiled := ⟨[]⟩ }).1

end Stencil
