import Stencil.Outline
import Stencil.Proofs.Spans

set_option autoImplicit false

/-!
# Pieces of a source

A source that is written piece by piece, each a run of text or one tag, is read piece by piece:
what comes behind a tag does not change how the tag is read.
-/
namespace Stencil

structure Path where
  first : List Char
  later : List (Char × List Char)
  isName : Token.IsName first
  isNames : ∀ step ∈ later, (step.1 = '.' ∨ step.1 = '/') ∧ Token.IsName step.2

def Call.Allowed (d : Dialect) (call : Call Expr) : Prop := ∀ c : Cursor, call.check d c = .ok ()

theorem Call.allowed_of_lenient {d : Dialect} (hd : d.knownHelpersOnly = false) (call : Call Expr) :
    call.Allowed d := by
  intro c
  unfold check
  split
  · rfl
  · rw [hd]
    rfl

theorem Call.allowed_of_helper {call : Call Expr} {h : Helper} (hhead : call.head = .helper h)
    (d : Dialect) : call.Allowed d := by
  intro c
  unfold check
  rw [hhead]
  rfl

namespace Path

def text (p : Path) : List Char := Cursor.pathText p.first p.later

def names (p : Path) : List String :=
  Cursor.nameOf p.first :: p.later.map fun step => Cursor.nameOf step.2

def head (d : Dialect) (fallback : Option Helper) (p : Path) : Head :=
  match p.names with
  | [name] => ((d.helpers.get? name).map Head.helper).getD (.value ⟨false, 0, [name]⟩ fallback)
  | names => .value ⟨false, 0, names⟩ fallback

def call (d : Dialect) (args : List Argument) (p : Path) : Call Expr :=
  ⟨String.ofList p.text, p.head d d.blockFallback, args.filterMap Argument.positional?,
    args.filterMap Argument.named?⟩

def negated (d : Dialect) (p : Path) : Call Expr :=
  ⟨String.ofList p.text, .negated ⟨false, 0, p.names⟩ d.blockFallback, [], []⟩

end Path

inductive Piece
  | text (cs : List Char)
  | value (escape : Bool) (e : Expr)
  | opening (call : Call Expr)
  | otherwise
  | otherwiseOpening (call : Call Expr)
  | closing (name : String)

namespace Cursor

/-- A reading gives `r` and is followed by a closer without a tilde and then by `rest`. -/
def Closes {c : Cursor} {α : Type} (extra : Nat) (x : Except Failure (c.Ahead α)) (r : α)
    (rest : List Char) : Prop :=
  ∃ a b, x = .ok a ∧ a.result = r ∧ a.cursor.closer extra = .ok b ∧ b.result = false ∧
    b.cursor.rest = rest

end Cursor

def ReadsValue (d : Dialect) (extra : Nat) (cs : List Char) (e : Expr) : Prop :=
  ∃ c, Cursor.enter cs = .ok c ∧ Cursor.Closes extra (c.1.expression d) e []

def ReadsArguments (d : Dialect) (cs : List Char) (args : List Argument) : Prop :=
  (cs = [] ∨ ∃ b rest, cs = b :: rest ∧ Text.isBlank b = true) ∧
    ∃ c : Cursor, c.At (cs ++ ['\x7d', '\x7d']) ∧ Cursor.Closes 0 (c.arguments d) args []

/-- The characters that make something else than an escaped value of a tag they begin. -/
def Opener.marks : List Char := ['\x7b', '~', '!', '&', '#', '^', '/', '>']

/-- The ways to write a tag, from its two opening braces on, without a tilde. -/
inductive WrittenTag (d : Dialect) : Piece → List Char → Prop
  | escaped {cs : List Char} {e : Expr} (begins : ∀ c ∈ cs.head?, c ∉ Opener.marks)
    (reads : ReadsValue d 0 (cs ++ ['\x7d', '\x7d']) e) :
    WrittenTag d (.value true e) (cs ++ ['\x7d', '\x7d'])
  | unescaped {cs : List Char} {e : Expr} (reads : ReadsValue d 0 (cs ++ ['\x7d', '\x7d']) e) :
    WrittenTag d (.value false e) ('&' :: (cs ++ ['\x7d', '\x7d']))
  | triple {cs : List Char} {e : Expr} (begins : ∀ c ∈ cs.head?, c ≠ '\x7b' ∧ c ≠ '~')
    (reads : ReadsValue d 1 (cs ++ ['\x7d', '\x7d', '\x7d']) e) :
    WrittenTag d (.value false e) ('\x7b' :: (cs ++ ['\x7d', '\x7d', '\x7d']))
  | opening (p : Path) {cs : List Char} {args : List Argument} (reads : ReadsArguments d cs args) :
    WrittenTag d (.opening (p.call d args)) ('#' :: (p.text ++ (cs ++ ['\x7d', '\x7d'])))
  | negated (p : Path) :
    WrittenTag d (.opening (p.negated d)) ('^' :: (p.text ++ ['\x7d', '\x7d']))
  | otherwise : WrittenTag d .otherwise ("else".toList ++ ['\x7d', '\x7d'])
  | caret : WrittenTag d .otherwise ['^', '\x7d', '\x7d']
  | otherwiseOpening (p : Path) {blanks cs : List Char} {args : List Argument}
    (hne : blanks ≠ []) (hblanks : ∀ c ∈ blanks, Text.isBlank c = true)
    (reads : ReadsArguments d cs args) :
    WrittenTag d (.otherwiseOpening (p.call d args))
      ("else".toList ++ (blanks ++ (p.text ++ (cs ++ ['\x7d', '\x7d']))))
  | closing (p : Path) :
    WrittenTag d (.closing (String.ofList p.text)) ('/' :: (p.text ++ ['\x7d', '\x7d']))

/-- No tag opens in a text without braces and backslashes. -/
def IsPlain (cs : List Char) : Prop := ∀ c ∈ cs, c ≠ '\x7b' ∧ c ≠ '\\'

inductive Written (d : Dialect) : List Piece → List Char → Prop
  | nil : Written d [] []
  | text {cs more : List Char} {ps : List Piece} (plain : IsPlain cs)
    (later : Written d ps more) : Written d (.text cs :: ps) (cs ++ more)
  | tag {p : Piece} {cs more : List Char} {ps : List Piece} (first : WrittenTag d p cs)
    (later : Written d ps more) : Written d (p :: ps) ('\x7b' :: '\x7b' :: (cs ++ more))

theorem Opener.read_escaped {cs : List Char} (h : ∀ c ∈ cs.head?, c ∉ Opener.marks)
    (more : List Char) :
    Opener.read (cs ++ '\x7d' :: more) = ⟨.escaped, false, cs ++ '\x7d' :: more⟩ := by
  cases cs with
  | nil => rfl
  | cons c cs =>
    have hc := h c rfl
    have hsigil : c ∉ ['!', '&', '#', '^', '/', '>'] := fun hmem => hc (by simp_all [Opener.marks])
    have hbrace : c ≠ '\x7b' := fun heq => hc (by simp [heq, Opener.marks])
    have htilde : c ≠ '~' := fun heq => hc (by simp [heq, Opener.marks])
    rw [List.cons_append, Opener.read_eq hbrace, takeTilde_cons htilde, Sigil.take_escaped hsigil]

theorem Opener.read_triple {cs : List Char} (h : ∀ c ∈ cs.head?, c ≠ '\x7b' ∧ c ≠ '~')
    (more : List Char) :
    Opener.read ('\x7b' :: (cs ++ '\x7d' :: more)) = ⟨.triple, false, cs ++ '\x7d' :: more⟩ := by
  cases cs with
  | nil => rfl
  | cons c cs =>
    obtain ⟨hbrace, htilde⟩ := h c rfl
    rw [List.cons_append, Opener.read_triple_eq hbrace, takeTilde_cons htilde]

namespace Cursor

def brace (rest : List Char) : Cursor := ⟨⟨.brace, ['\x7d']⟩, rest⟩

theorem at_brace (rest : List Char) : (brace rest).At ('\x7d' :: rest) :=
  Token.read_symbol rfl rest

theorem braces_gives (n : Nat) (rest : List Char) :
    Gives ((brace (List.replicate n '\x7d' ++ rest)).braces n) () (brace rest) := by
  induction n with
  | zero => exact ⟨Nat.le_refl _, rfl⟩
  | succ n ih =>
    obtain ⟨hle, hbraces⟩ := ih
    have hnext := at_brace (List.replicate n '\x7d' ++ rest)
    have hexpect : (brace (List.replicate (n + 1) '\x7d' ++ rest)).expect .brace =
        .ok ⟨brace (List.replicate n '\x7d' ++ rest), hnext.lt⟩ := expect_eq rfl hnext
    refine ⟨Nat.le_trans hle (Nat.le_of_lt hnext.lt), ?_⟩
    rw [braces, hexpect, ok_bind]
    dsimp only
    rw [hbraces]
    rfl

theorem closer_brace (rest : List Char) :
    ∃ b, (brace ('\x7d' :: rest)).closer 0 = .ok b ∧ b.result = false ∧ b.cursor.rest = rest := by
  have hnext : (brace ('\x7d' :: rest)).next = .ok ⟨brace rest, _⟩ := next_eq (at_brace rest)
  have hexpect : (brace ('\x7d' :: rest)).expect .brace = .ok ⟨brace rest, _⟩ :=
    expect_eq rfl (at_brace rest)
  refine ⟨⟨false, brace rest, Nat.le_succ _⟩, ?_, rfl, rfl⟩
  unfold closer
  rw [skip_eq_false (fun h : TokenKind.brace = .space => nomatch h), ok_bind]
  dsimp only [here]
  rw [skip_eq_false (fun h : TokenKind.brace = .tilde => nomatch h), ok_bind]
  dsimp only [here]
  rw [braces, hexpect, ok_bind]
  rfl

section
variable {α β : Type} {c e : Cursor} {extra : Nat} {r : α} {more rest : List Char}

theorem Closes.append {x : Except Failure (c.Ahead α)} {y : Except Failure (e.Ahead α)}
    (h : Closes extra x r []) (hxy : Carries [] more c Eq x y) : Closes extra y r more := by
  obtain ⟨a, b, hx, hr, hb, htilde, hrest⟩ := h
  obtain ⟨a', hy, hresult, halike⟩ := (hxy a hx).2 (Nat.zero_le _)
  obtain ⟨b', hb', hresult', halike'⟩ := (closer_carries halike extra b hb).2 (Nat.zero_le _)
  refine ⟨a', b', hy, hresult.symm.trans hr, hb', hresult'.symm.trans htilde, ?_⟩
  rw [halike'.eq_of_nil.2]
  change b.cursor.rest ++ more = more
  rw [hrest, List.nil_append]

theorem Closes.map {x : Except Failure (c.Ahead α)} (f : α → β) (h : Closes extra x r rest) :
    Closes extra (Ahead.map f <$> x) (f r) rest := by
  obtain ⟨a, b, hx, hr, hb, htilde, hrest⟩ := h
  refine ⟨a.map f, b, ?_, congrArg f hr, hb, htilde, hrest⟩
  rw [hx]
  rfl

theorem closes_brace (h : c.At ('\x7d' :: '\x7d' :: rest)) (r : α) :
    Closes 0 (.ok (c.here r)) r rest := by
  obtain rfl := h.eq (at_brace _)
  obtain ⟨b, hb, htilde, hrest⟩ := closer_brace rest
  exact ⟨here _ r, b, rfl, rfl, hb, htilde, hrest⟩

end

/-- The cursor goes by at a space: a blank text is passed by `enter`. -/
theorem enter_eq {c : Cursor} {cs : List Char} (hc : c.At cs) (hspace : c.token.kind ≠ .space) :
    enter cs = .ok ⟨c, hc.lt⟩ := by
  unfold enter
  rw [start_eq hc, ok_bind]
  dsimp only
  rw [skip_eq_false hspace]
  rfl

end Cursor

theorem endsName_brace : Cursor.EndsName '\x7d' := ⟨by decide, by decide⟩

namespace Path
open Cursor
variable (p : Path) {e : Char} {es : List Char}

theorem at_text (he : EndsName e) (es : List Char) :
    ∃ c : Cursor, c.At (p.text ++ e :: es) ∧ c.token = ⟨.ident, p.first⟩ :=
  at_path p.isName p.isNames he es

theorem exists_cons (rest : List Char) :
    ∃ c cs, p.text ++ rest = c :: cs ∧ Text.isBlank c = false := by
  obtain ⟨c, cs, hc, hblank⟩ := p.isName.exists_cons
  refine ⟨c, cs ++ (p.later.flatMap fun step => step.1 :: step.2) ++ rest, ?_, hblank⟩
  unfold text pathText
  rw [hc, List.cons_append, List.cons_append]

theorem names?_text (he : EndsName e) {c d : Cursor} (hc : c.At (p.text ++ e :: es))
    (hd : d.At (e :: es)) (hkind : ¬ (d.token.kind = .dot ∨ d.token.kind = .slash)) :
    Gives c.names? (some (stepsOf "" p.first p.later)) d :=
  names?_gives p.isName p.isNames he hd hkind hc

theorem head_text (he : EndsName e) {c d : Cursor} (hc : c.At (p.text ++ e :: es))
    (hd : d.At (e :: es)) (hkind : ¬ (d.token.kind = .dot ∨ d.token.kind = .slash))
    (dialect : Dialect) (fallback : Option Helper) :
    Gives (c.head dialect fallback) (p.head dialect fallback) d := by
  obtain ⟨hle, hnames⟩ := p.names?_text he hc hd hkind
  have hsnd := map_snd_stepsOf "" p.first p.later
  refine ⟨hle, ?_⟩
  unfold Cursor.head
  rw [hnames, ok_bind]
  dsimp only
  rw [hsnd]
  unfold Path.head names
  cases p.later with
  | nil =>
    cases hget : dialect.helpers.get? (nameOf p.first) <;> simp [hget] <;> rfl
  | cons step later => rfl

end Path

section
open Cursor
variable {d : Dialect} {cs : List Char} {args : List Argument}

theorem ReadsArguments.at_behind (h : ReadsArguments d cs args) (more : List Char) :
    ∃ (e : Char) (es : List Char) (c : Cursor), cs ++ '\x7d' :: '\x7d' :: more = e :: es ∧
      EndsName e ∧ c.At (e :: es) ∧ ¬ (c.token.kind = .dot ∨ c.token.kind = .slash) ∧
      Closes 0 (c.arguments d) args more := by
  obtain ⟨hcs, c, hc, hcloses⟩ := h
  have hlast : (cs ++ ['\x7d', '\x7d']).getLast? = some '\x7d' := by simp
  have hbraced := hc.braced hlast
  have hmore : (c.append more).At (cs ++ '\x7d' :: '\x7d' :: more) := by
    have := hbraced.at_append more
    rwa [hc.chars, List.append_assoc] at this
  have harguments :=
    (localBelow d [] more _).arguments (.of_nil hbraced) (Nat.lt_succ_self _)
  have hbehind := hcloses.append harguments
  rcases hcs with rfl | ⟨b, rest, rfl, hb⟩
  · have hkind := congrArg Cursor.token (hmore.eq (at_brace _))
    refine ⟨_, _, _, rfl, endsName_brace, hmore, ?_, hbehind⟩
    rw [hkind]
    rintro (h | h) <;> cases h
  · have hkind := kind_of_blank hb hmore
    refine ⟨_, _, _, rfl, endsName_blank hb, hmore, ?_, hbehind⟩
    rw [hkind]
    rintro (h | h) <;> cases h

theorem ReadsArguments.closes_blockCall (h : ReadsArguments d cs args) (p : Path)
    (hallowed : (p.call d args).Allowed d) {c : Cursor} (more : List Char)
    (hc : c.At (p.text ++ (cs ++ '\x7d' :: '\x7d' :: more))) :
    Closes 0 (c.blockCall d) (p.call d args) more := by
  obtain ⟨e, es, c', hes, he, hc', hkind, a, b, ha, hargs, hb, htilde, hrest⟩ := h.at_behind more
  rw [hes] at hc
  obtain ⟨hle, hhead⟩ := p.head_text he hc hc' hkind d d.blockFallback
  refine ⟨⟨p.call d args, a.cursor, Nat.le_trans a.le hle⟩, b, ?_, rfl, hb, htilde, hrest⟩
  have hcall : c.call d d.blockFallback =
      .ok ⟨p.call d args, a.cursor, Nat.le_trans a.le hle⟩ := by
    rw [Cursor.call, hhead, ok_bind]
    dsimp only
    rw [ha, ok_bind, upTo_eq hc hc', hargs]
    rfl
  unfold blockCall
  rw [hcall, ok_bind]
  dsimp only
  rw [hallowed]
  rfl

end

/-- What follows two braces is a tag without tildes, and `more` follows that. -/
structure Reads (d : Dialect) (place : Option Branch) (inside : List Char) (t : Tag)
    (more : List Char) : Prop where
  sigil : (Opener.read inside).sigil ≠ .inclusion
  trims : (Opener.read inside).trims = false
  read : ∀ left, ∃ r, TagRead.read d place left (Opener.read inside) = .ok r ∧ r.tag = some t ∧
    r.trims = false ∧ r.rest = more

structure Refuses (d : Dialect) (place : Option Branch) (inside : List Char)
    (kind : SyntaxErrorKind) : Prop where
  sigil : (Opener.read inside).sigil ≠ .inclusion
  trims : (Opener.read inside).trims = false
  read : ∀ left, ∃ l, TagRead.read d place left (Opener.read inside) = .error ⟨l, kind⟩

section
open Cursor
variable {d : Dialect} {place : Option Branch} {inside cs more : List Char} {sigil : Sigil}

theorem ne_inclusion (hs : sigil.isOrdinary = true) : sigil ≠ .inclusion := by
  rintro rfl
  cases hs

theorem reads_of_closes {p : { c : Cursor // c.rest.length < cs.length }} {t : Tag}
    (hopener : Opener.read inside = ⟨sigil, false, cs⟩) (hs : sigil.isOrdinary = true)
    (henter : enter cs = .ok p) (h : Closes sigil.extraBraces (p.1.tag d place sigil) t more) :
    Reads d place inside t more := by
  obtain ⟨a, b, ha, hr, hb, htilde, hrest⟩ := h
  constructor
  · rw [hopener]
    exact ne_inclusion hs
  · rw [hopener]
  · intro left
    rw [hopener, TagRead.read_ordinary hs, henter, ok_bind]
    dsimp only
    rw [ha, ok_bind]
    unfold closed
    rw [hb, ok_bind]
    exact ⟨_, rfl, congrArg some hr, htilde, hrest⟩

theorem refuses_of_error {p : { c : Cursor // c.rest.length < cs.length }} {l : Nat}
    {kind : SyntaxErrorKind} (hopener : Opener.read inside = ⟨sigil, false, cs⟩)
    (hs : sigil.isOrdinary = true) (henter : enter cs = .ok p)
    (h : p.1.tag d place sigil = .error ⟨l, kind⟩) : Refuses d place inside kind := by
  constructor
  · rw [hopener]
    exact ne_inclusion hs
  · rw [hopener]
  · intro left
    rw [hopener, TagRead.read_ordinary hs, henter, ok_bind]
    dsimp only
    rw [h]
    exact ⟨l, rfl⟩

end

namespace Cursor

theorem reference?_eq_none {c : Cursor} (hat : c.token.kind ≠ .atSign)
    (hthis : c.token.kind ≠ .thisWord) (hdot : c.token.kind ≠ .dot)
    (hident : c.token.kind ≠ .ident) : c.reference? = .ok (c.here none) := by
  unfold reference?
  rw [skip_eq_false hat, ok_bind]
  dsimp only [here]
  rw [eat_eq_none hthis, ok_bind]
  dsimp only
  rw [climb, eat_eq_none hdot, ok_bind]
  have hnames : c.referenceNames false 0 false = .ok (c.here none) := by
    unfold referenceNames
    rw [names?_eq_none hident]
    rfl
  change (c.referenceNames false 0 false >>= _) = _
  rw [hnames]
  rfl

theorem expression_elseWord {c : Cursor} (h : c.token.kind = .elseWord) (d : Dialect)
    (a : c.Ahead Expr) : c.expression d ≠ .ok a := by
  have hne : ∀ kind, kind ≠ .elseWord → c.token.kind ≠ kind := by
    intro kind hkind heq
    exact hkind (heq.symm.trans h)
  have hreference := reference?_eq_none (hne .atSign (by decide)) (hne .thisWord (by decide))
    (hne .dot (by decide)) (hne .ident (by decide))
  have hhead : c.head d d.callFallback = c.fail .invalidExpression := by
    unfold Cursor.head
    rw [names?_eq_none (hne .ident (by decide)), ok_bind]
    dsimp only [here]
    rw [hreference, ok_bind]
    rfl
  rw [expression, Cursor.call, hhead]
  intro hok
  cases hok

end Cursor

section
open Cursor
variable {d : Dialect} {cs : List Char} {e : Expr} {extra : Nat}

theorem ReadsValue.enter (h : ReadsValue d extra (cs ++ ['\x7d', '\x7d']) e) (more : List Char) :
    ∃ p, Cursor.enter (cs ++ '\x7d' :: '\x7d' :: more) = .ok p ∧
      Closes extra (p.1.expression d) e more := by
  obtain ⟨q, hq, hcloses⟩ := h
  have hlast : (cs ++ ['\x7d', '\x7d']).getLast? = some '\x7d' := by simp
  have hfirst : Alike [] more (inFront (cs ++ ['\x7d', '\x7d']))
      (inFront (cs ++ '\x7d' :: '\x7d' :: more)) := by
    have halike : Alike [] more _ _ := Alike.of_nil (inFront_braced hlast)
    unfold append inFront at halike
    rwa [List.append_assoc] at halike
  obtain ⟨p, hp, halike⟩ := (enter_carries hfirst hq).2 (Nat.zero_le _)
  exact ⟨p, hp, hcloses.append ((localBelow d [] more _).expression halike (Nat.lt_succ_self _))⟩

theorem reads_escaped (begins : ∀ c ∈ cs.head?, c ∉ Opener.marks)
    (h : ReadsValue d 0 (cs ++ ['\x7d', '\x7d']) e) (place : Option Branch) (more : List Char) :
    Reads d place (cs ++ '\x7d' :: '\x7d' :: more) (.value true e) more := by
  obtain ⟨p, hp, hcloses⟩ := h.enter more
  apply reads_of_closes (Opener.read_escaped begins _) rfl hp
  have helse : p.1.token.kind ≠ .elseWord := by
    intro helse
    obtain ⟨a, -, ha, -⟩ := hcloses
    exact expression_elseWord helse d a ha
  change Closes 0 (p.1.escapedTag d place) _ _
  unfold escapedTag
  rw [eat_eq_none helse, ok_bind]
  exact hcloses.map (Tag.value true)

theorem reads_unescaped (h : ReadsValue d 0 (cs ++ ['\x7d', '\x7d']) e) (place : Option Branch)
    (more : List Char) :
    Reads d place ('&' :: (cs ++ '\x7d' :: '\x7d' :: more)) (.value false e) more := by
  obtain ⟨p, hp, hcloses⟩ := h.enter more
  have hopener (rest : List Char) : Opener.read ('&' :: rest) = ⟨.unescaped, false, rest⟩ := rfl
  exact reads_of_closes (hopener _) rfl hp (hcloses.map (Tag.value false))

theorem reads_triple (begins : ∀ c ∈ cs.head?, c ≠ '\x7b' ∧ c ≠ '~')
    (h : ReadsValue d 1 (cs ++ ['\x7d', '\x7d', '\x7d']) e) (place : Option Branch)
    (more : List Char) :
    Reads d place ('\x7b' :: (cs ++ '\x7d' :: '\x7d' :: '\x7d' :: more)) (.value false e) more := by
  have h' : ReadsValue d 1 ((cs ++ ['\x7d']) ++ ['\x7d', '\x7d']) e := by
    rwa [List.append_assoc]
  have hmore := h'.enter more
  rw [List.append_assoc] at hmore
  obtain ⟨p, hp, hcloses⟩ := hmore
  exact reads_of_closes (Opener.read_triple begins _) rfl hp (hcloses.map (Tag.value false))

end

theorem Path.reference?_text (p : Path) {e : Char} {es : List Char} (he : Cursor.EndsName e)
    {c d : Cursor} (hc : c.At (p.text ++ e :: es)) (hd : d.At (e :: es))
    (hkind : ¬ (d.token.kind = .dot ∨ d.token.kind = .slash)) :
    Cursor.Gives c.reference? (some ⟨false, 0, p.names⟩) d := by
  obtain ⟨c', hc', htoken⟩ := p.at_text he es
  have hident : c.token.kind = .ident := by rw [hc.eq hc', htoken]
  obtain ⟨hle, hnames⟩ := p.names?_text he hc hd hkind
  refine ⟨hle, ?_⟩
  rw [Cursor.reference?_of_names? hident hnames, Cursor.map_snd_stepsOf]
  rfl

section
open Cursor
variable {d : Dialect} {cs : List Char} {args : List Argument} (p : Path) (place : Option Branch)

theorem brace_not_separator (rest : List Char) :
    ¬ ((brace rest).token.kind = .dot ∨ (brace rest).token.kind = .slash) := by
  rintro (h | h) <;> cases h

theorem Path.enter_text {e : Char} (he : EndsName e) (es : List Char) :
    ∃ (c : Cursor) (hc : c.At (p.text ++ e :: es)), c.token.kind = .ident ∧
      enter (p.text ++ e :: es) = .ok ⟨c, hc.lt⟩ := by
  obtain ⟨c, hc, htoken⟩ := p.at_text he es
  have hident : c.token.kind = .ident := by rw [htoken]
  exact ⟨c, hc, hident, enter_eq hc (by rw [hident]; decide)⟩

theorem reads_opening (hallowed : (p.call d args).Allowed d) (h : ReadsArguments d cs args)
    (more : List Char) :
    Reads d place ('#' :: (p.text ++ (cs ++ '\x7d' :: '\x7d' :: more)))
      (.opening (p.call d args)) more := by
  have hopener (rest : List Char) : Opener.read ('#' :: rest) = ⟨.opening, false, rest⟩ := rfl
  obtain ⟨e, es, -, hes, he, -⟩ := h.at_behind more
  have hblock (c : Cursor) := h.closes_blockCall p hallowed (c := c) more
  rw [hes] at hblock ⊢
  obtain ⟨c, hc, -, henter⟩ := p.enter_text he es
  exact reads_of_closes (hopener _) rfl henter ((hblock c hc).map Tag.opening)

theorem reads_negated (more : List Char) :
    Reads d place ('^' :: (p.text ++ '\x7d' :: '\x7d' :: more)) (.opening (p.negated d)) more := by
  have hopener (rest : List Char) : Opener.read ('^' :: rest) = ⟨.negated, false, rest⟩ := rfl
  obtain ⟨c, hc, hident, henter⟩ := p.enter_text endsName_brace ('\x7d' :: more)
  have hbrace := at_brace ('\x7d' :: more)
  obtain ⟨hle, hreference⟩ := p.reference?_text endsName_brace hc hbrace (brace_not_separator _)
  obtain ⟨b, hb, htilde, hrest⟩ := closer_brace more
  apply reads_of_closes (hopener _) rfl henter
  refine ⟨⟨.opening (p.negated d), brace ('\x7d' :: more), hle⟩, b, ?_, rfl, hb, htilde, hrest⟩
  change c.negatedTag d place = _
  have hcloser : c.atCloser = false := by
    unfold atCloser
    rw [hident]
    rfl
  unfold negatedTag
  rw [hcloser, if_neg Bool.false_ne_true, hreference, ok_bind]
  dsimp only
  rw [upTo_eq hc hbrace]
  rfl

theorem reads_closing (more : List Char) :
    ∃ left, Reads d place ('/' :: (p.text ++ '\x7d' :: '\x7d' :: more))
      (.closing (String.ofList p.text) left) more := by
  have hopener (rest : List Char) : Opener.read ('/' :: rest) = ⟨.closing, false, rest⟩ := rfl
  obtain ⟨c, hc, -, henter⟩ := p.enter_text endsName_brace ('\x7d' :: more)
  have hbrace := at_brace ('\x7d' :: more)
  obtain ⟨hle, hnames⟩ := p.names?_text endsName_brace hc hbrace (brace_not_separator _)
  obtain ⟨b, hb, htilde, hrest⟩ := closer_brace more
  refine ⟨c.left, reads_of_closes (hopener _) rfl henter ?_⟩
  refine ⟨⟨.closing (String.ofList p.text) c.left, brace ('\x7d' :: more), hle⟩, b, ?_, rfl, hb,
    htilde, hrest⟩
  change c.closingTag = _
  unfold closingTag
  rw [hnames, ok_bind]
  unfold Ahead.map
  dsimp only
  rw [upTo_eq hc hbrace]
  rfl

end

def otherwiseFault? : Option Branch → Option SyntaxErrorKind
  | none => some .elseOutsideBlock
  | some .inverse => some .multipleElse
  | some .main => none

section
open Cursor
variable {d : Dialect} {place : Option Branch} {kind : SyntaxErrorKind}

theorem otherwiseTag_eq_error (h : otherwiseFault? place = some kind) (c : Cursor) :
    c.otherwiseTag place = .error ⟨c.left, kind⟩ := by
  unfold otherwiseFault? at h
  split at h <;> cases h <;> rfl

theorem at_else {e : Char} (he : EndsName e) (es : List Char) :
    At ⟨⟨.elseWord, "else".toList⟩, e :: es⟩ ("else".toList ++ e :: es) :=
  Token.read_run (by decide) (List.all_eq_true.1 (by decide)) he.name es
    (Token.number?_append_none (by decide) (by decide) he.digit es)

theorem enter_else {e : Char} (he : EndsName e) (es : List Char) :
    enter ("else".toList ++ e :: es) = .ok ⟨_, (at_else he es).lt⟩ :=
  enter_eq (at_else he es) (fun h : TokenKind.elseWord = .space => nomatch h)

theorem opener_else (rest : List Char) :
    Opener.read ("else".toList ++ rest) = ⟨.escaped, false, "else".toList ++ rest⟩ := rfl

/-- In the inverse body nothing behind the word matters. -/
theorem escapedTag_inverse {w v : Cursor} (hw : w.token.kind = .elseWord) (hv : v.At w.rest)
    (d : Dialect) : ∃ l, w.escapedTag d (some .inverse) = .error ⟨l, .multipleElse⟩ := by
  unfold escapedTag
  rw [eat_eq_some hw hv, ok_bind]
  exact ⟨_, rfl⟩

theorem escapedTag_brace {w : Cursor} (hw : w.token.kind = .elseWord) {more : List Char}
    (hrest : w.rest = '\x7d' :: more) (hplace : place ≠ some .inverse) (d : Dialect) :
    ∃ h : (brace more).rest.length ≤ w.rest.length, w.escapedTag d place =
      (do
        let tag ← (brace more).otherwiseTag place
        return ⟨tag.result, tag.cursor, Nat.le_trans tag.le h⟩) := by
  have hbrace : (brace more).At w.rest := by
    rw [hrest]
    exact at_brace more
  refine ⟨Nat.le_of_lt hbrace.lt, ?_⟩
  unfold escapedTag
  rw [eat_eq_some hw hbrace, ok_bind]
  dsimp only [Past.ahead]
  rw [if_neg hplace, skip_eq_false (fun h : TokenKind.brace = .space => nomatch h), ok_bind]
  rfl

theorem escapedTag_blanks {w c : Cursor} (hw : w.token.kind = .elseWord) {blanks : List Char}
    (hne : blanks ≠ []) (hblanks : ∀ c ∈ blanks, Text.isBlank c = true) {e : Char}
    {es : List Char} (hrest : w.rest = blanks ++ e :: es) (he : Text.isBlank e = false)
    (hc : c.At (e :: es)) (hcloser : c.atCloser = false) (hplace : place ≠ some .inverse)
    (d : Dialect) :
    ∃ h : c.rest.length ≤ w.rest.length, w.escapedTag d place =
      (do
        let tag ← c.otherwiseOpeningTag d place
        return ⟨tag.result, tag.cursor, Nat.le_trans tag.le h⟩) := by
  have hspace : At ⟨⟨.space, blanks⟩, e :: es⟩ w.rest := by
    rw [hrest]
    exact Token.read_space hne hblanks he es
  have hskip : skip .space ⟨⟨.space, blanks⟩, e :: es⟩ = .ok ⟨true, c, Nat.le_of_lt hc.lt⟩ :=
    skip_eq_true rfl hc
  refine ⟨Nat.le_trans (Nat.le_of_lt hc.lt) (Nat.le_of_lt hspace.lt), ?_⟩
  unfold escapedTag
  rw [eat_eq_some hw hspace, ok_bind]
  dsimp only [Past.ahead]
  rw [if_neg hplace, hskip, ok_bind]
  dsimp only
  rw [hcloser, Bool.not_false, Bool.and_true, if_pos rfl]
  rfl

theorem reads_otherwise (d : Dialect) (more : List Char) :
    Reads d (some .main) ("else".toList ++ '\x7d' :: '\x7d' :: more) .otherwise more := by
  apply reads_of_closes (opener_else _) rfl (enter_else endsName_brace _)
  obtain ⟨b, hb, htilde, hrest⟩ := closer_brace more
  obtain ⟨hle, htag⟩ := escapedTag_brace
    (w := ⟨⟨.elseWord, "else".toList⟩, '\x7d' :: '\x7d' :: more⟩) rfl rfl
    (by decide : some Branch.main ≠ some .inverse) d
  exact ⟨⟨.otherwise, brace ('\x7d' :: more), hle⟩, b, htag, rfl, hb, htilde, hrest⟩

theorem refuses_otherwise (h : otherwiseFault? place = some kind) (d : Dialect)
    (more : List Char) :
    Refuses d place ("else".toList ++ '\x7d' :: '\x7d' :: more) kind := by
  have hfails : ∃ l, escapedTag d place ⟨⟨.elseWord, "else".toList⟩, '\x7d' :: '\x7d' :: more⟩ =
      .error ⟨l, kind⟩ := by
    by_cases hplace : place = some .inverse
    · subst hplace
      cases h
      exact escapedTag_inverse rfl (at_brace ('\x7d' :: more)) d
    · obtain ⟨_, htag⟩ := escapedTag_brace
        (w := ⟨⟨.elseWord, "else".toList⟩, '\x7d' :: '\x7d' :: more⟩) rfl rfl hplace d
      rw [otherwiseTag_eq_error h] at htag
      exact ⟨_, htag⟩
  obtain ⟨l, htag⟩ := hfails
  exact refuses_of_error (opener_else _) rfl (enter_else endsName_brace _) htag

theorem reads_caret (d : Dialect) (more : List Char) :
    Reads d (some .main) ('^' :: '\x7d' :: '\x7d' :: more) .otherwise more := by
  have hopener (rest : List Char) : Opener.read ('^' :: rest) = ⟨.negated, false, rest⟩ := rfl
  have hbrace := at_brace ('\x7d' :: more)
  have henter := enter_eq hbrace (fun h : TokenKind.brace = .space => nomatch h)
  exact reads_of_closes (hopener _) rfl henter (closes_brace hbrace Tag.otherwise)

theorem refuses_caret (h : otherwiseFault? place = some kind) (d : Dialect) (more : List Char) :
    Refuses d place ('^' :: '\x7d' :: '\x7d' :: more) kind := by
  have hopener (rest : List Char) : Opener.read ('^' :: rest) = ⟨.negated, false, rest⟩ := rfl
  have henter := enter_eq (at_brace ('\x7d' :: more))
    (fun h : TokenKind.brace = .space => nomatch h)
  apply refuses_of_error (hopener _) rfl henter
  exact otherwiseTag_eq_error h _

section
variable {blanks cs : List Char} {args : List Argument} (p : Path) (hne : blanks ≠ [])
  (hblanks : ∀ c ∈ blanks, Text.isBlank c = true)
include hne hblanks

theorem escapedTag_path {e : Char} {es : List Char} (he : EndsName e)
    (hplace : place ≠ some .inverse) (d : Dialect) {w : Cursor} (hw : w.token.kind = .elseWord)
    (hrest : w.rest = blanks ++ (p.text ++ e :: es)) :
    ∃ (c : Cursor) (_ : c.At (p.text ++ e :: es)) (h : c.rest.length ≤ w.rest.length),
      w.escapedTag d place =
      (do
        let tag ← c.otherwiseOpeningTag d place
        return ⟨tag.result, tag.cursor, Nat.le_trans tag.le h⟩) := by
  obtain ⟨c, hc, htoken⟩ := p.at_text he es
  have hident : c.token.kind = .ident := by rw [htoken]
  have hcloser : c.atCloser = false := by
    unfold atCloser
    rw [hident]
    rfl
  obtain ⟨x, xs, hx, hblank⟩ := p.exists_cons (e :: es)
  refine ⟨c, hc, ?_⟩
  rw [hx] at hc hrest
  exact escapedTag_blanks hw hne hblanks hrest hblank hc hcloser hplace d

theorem reads_otherwiseOpening {d : Dialect} (hallowed : (p.call d args).Allowed d)
    (h : ReadsArguments d cs args) (more : List Char) :
    Reads d (some .main) ("else".toList ++ (blanks ++ (p.text ++ (cs ++ '\x7d' :: '\x7d' :: more))))
      (.otherwiseOpening (p.call d args)) more := by
  obtain ⟨b, bs, rfl⟩ := List.exists_cons_of_ne_nil hne
  have hends := endsName_blank (hblanks b List.mem_cons_self)
  obtain ⟨e, es, -, hes, he, -⟩ := h.at_behind more
  have hblock (c : Cursor) := h.closes_blockCall p hallowed (c := c) more
  rw [hes] at hblock ⊢
  obtain ⟨c, hc, hle, htag⟩ := escapedTag_path p hne hblanks he
    (by decide : some Branch.main ≠ some .inverse) d (w := ⟨⟨.elseWord, "else".toList⟩, _⟩) rfl rfl
  obtain ⟨a, closer, ha, hr, hcloser, htilde, hrest⟩ := (hblock c hc).map Tag.otherwiseOpening
  have hread : c.otherwiseOpeningTag d (some .main) = .ok a := ha
  rw [hread, ok_bind] at htag
  apply reads_of_closes (opener_else _) rfl (enter_else hends _)
  exact ⟨⟨a.result, a.cursor, Nat.le_trans a.le hle⟩, closer, htag, hr, hcloser, htilde, hrest⟩

theorem refuses_otherwiseOpening (h : otherwiseFault? place = some kind) {d : Dialect}
    (hargs : ReadsArguments d cs args) (more : List Char) :
    Refuses d place ("else".toList ++ (blanks ++ (p.text ++ (cs ++ '\x7d' :: '\x7d' :: more))))
      kind := by
  obtain ⟨b, bs, rfl⟩ := List.exists_cons_of_ne_nil hne
  have hends := endsName_blank (hblanks b List.mem_cons_self)
  obtain ⟨e, es, -, hes, he, -⟩ := hargs.at_behind more
  rw [hes]
  have hfails : ∃ l, escapedTag d place
      ⟨⟨.elseWord, "else".toList⟩, (b :: bs) ++ (p.text ++ e :: es)⟩ = .error ⟨l, kind⟩ := by
    cases place with
    | none =>
      cases h
      obtain ⟨c, _, _, htag⟩ := escapedTag_path p hne hblanks he
        (by decide : none ≠ some Branch.inverse) d (w := ⟨⟨.elseWord, "else".toList⟩, _⟩) rfl rfl
      exact ⟨_, htag⟩
    | some branch =>
      cases branch with
      | main => cases h
      | inverse =>
        cases h
        obtain ⟨x, xs, hx, hblank⟩ := p.exists_cons (e :: es)
        have hspace : At ⟨⟨.space, b :: bs⟩, x :: xs⟩ ((b :: bs) ++ (p.text ++ e :: es)) := by
          rw [hx]
          exact Token.read_space hne hblanks hblank xs
        exact escapedTag_inverse rfl hspace d
  obtain ⟨l, htag⟩ := hfails
  exact refuses_of_error (opener_else _) rfl (enter_else hends _) htag

end

end

end Stencil
