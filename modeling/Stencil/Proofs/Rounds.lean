import Stencil.Proofs.Asking
import Stencil.Proofs.Drafts

set_option autoImplicit false

/-!
# A source round by round

A source is read in rounds. Each looks for the next mark behind the search position, which is a tag
or a backslash in front of a character, and takes the text from the text position up to it. Round by
round a source comes to the same outline as in one go.
-/
namespace Stencil

/-- A part of a source, by the characters left at its beginning and at its end. -/
structure Span where
  start : List Char
  stop : List Char

namespace Span

def text (s : Span) : List Char := s.start.take (s.start.length - s.stop.length)

variable {cs ds es : List Char}

theorem text_append (h : ds <:+ cs) : text ⟨cs, ds⟩ ++ ds = cs := by
  obtain ⟨front, rfl⟩ := h
  rw [text, List.length_append, Nat.add_sub_cancel, List.take_left]

theorem text_trans (h : ds <:+ cs) (h' : es <:+ ds) : text ⟨cs, ds⟩ ++ text ⟨ds, es⟩ = text ⟨cs, es⟩ := by
  refine (List.append_left_inj es).1 ?_
  rw [List.append_assoc, text_append h', text_append h, text_append (h'.trans h)]

theorem text_self (cs : List Char) : text ⟨cs, cs⟩ = [] := by
  rw [text, Nat.sub_self, List.take_zero]

theorem text_append_left (front : List Char) (h : ds <:+ cs) :
    text ⟨front ++ cs, ds⟩ = front ++ text ⟨cs, ds⟩ := by
  refine (List.append_left_inj ds).1 ?_
  rw [List.append_assoc, text_append h, text_append (h.trans (List.suffix_append _ _))]

theorem text_cons (c : Char) (cs : List Char) : text ⟨c :: cs, cs⟩ = [c] :=
  (List.append_left_inj cs).1 (text_append (List.suffix_cons c cs))

end Span

namespace Text

inductive Mark
  | tag (inside : List Char)
  | escape (c : Char) (rest : List Char)
  | none

def Mark.chars : Mark → List Char
  | tag inside => '\x7b' :: '\x7b' :: inside
  | escape c rest => '\\' :: c :: rest
  | none => []

/-- The first mark. A newline is not escaped. -/
def mark : List Char → Mark
  | [] => .none
  | '\\' :: c :: cs => if c = '\n' then mark cs else .escape c cs
  | '\x7b' :: '\x7b' :: cs => .tag cs
  | _ :: cs => mark cs

theorem mark_suffix (cs : List Char) : (mark cs).chars <:+ cs := by
  fun_induction mark cs with
  | case1 => exact List.suffix_refl _
  | case2 cs ih => exact ih.trans ((List.suffix_cons _ _).trans (List.suffix_cons _ _))
  | case3 => exact List.suffix_refl _
  | case4 => exact List.suffix_refl _
  | case5 c cs _ _ ih => exact ih.trans (List.suffix_cons c cs)

def Mark.found (cs : List Char) (m : Mark) : List Char × Option (List Char) :=
  match m with
  | tag inside => (Span.text ⟨cs, m.chars⟩, some inside)
  | escape c rest => inFront (Span.text ⟨cs, m.chars⟩ ++ [c]) (plain rest)
  | none => (Span.text ⟨cs, m.chars⟩, Option.none)

theorem Mark.found_append (front : List Char) {cs : List Char} {m : Mark} (h : m.chars <:+ cs) :
    m.found (front ++ cs) = inFront front (m.found cs) := by
  have htext := Span.text_append_left front h
  cases m with
  | escape c rest =>
    dsimp only [found]
    rw [htext]
    simp only [inFront, List.append_assoc]
  | _ =>
    dsimp only [found]
    rw [htext]
    rfl

theorem plain_eq (cs : List Char) : plain cs = (mark cs).found cs := by
  fun_induction mark cs with
  | case1 => rfl
  | case2 cs ih =>
    rw [plain, if_pos rfl, ih]
    exact (Mark.found_append ['\\', '\n'] (mark_suffix cs)).symm
  | case3 c cs h =>
    rw [plain, if_neg h, Mark.found, Mark.chars, Span.text_self]
    rfl
  | case4 cs =>
    rw [plain, Mark.found, Mark.chars, Span.text_self]
  | case5 c cs hescape htag ih =>
    rw [plain, ih]
    · exact (Mark.found_append [c] (mark_suffix cs)).symm
    · exact hescape
    · exact htag

end Text

/-- The state in which a round begins. -/
structure Scan where
  draft : Draft := {}
  /-- The tag before trims the text behind it. -/
  trims : Bool := false
  /-- The characters left from the last brace of a tag on. -/
  mark : Nat := 0
  /-- The text before the text position that belongs to no item yet. -/
  pending : List Char := []
  /-- The characters from the text position on. -/
  text : List Char
  /-- The characters from the search position on. -/
  search : List Char
  ordered : search <:+ text

/-- What a round comes to where `n` characters were left from the text position on. -/
inductive Turn (n : Nat)
  | finished (items : List Item)
  | failed (f : Failure)
  /-- A partial is asked for, and what the round comes to if it is there. -/
  | asking (name : String) (left : Nat) (turn : Turn n)
  | goOn (s : Scan) (h : s.text.length < n)

namespace Turn
variable {n : Nat}

def ofExcept : Except Failure (List Item) → Turn n
  | .ok items => finished items
  | .error f => failed f

def next? : Turn n → Option Scan
  | finished _ | failed _ => none
  | asking _ _ turn => turn.next?
  | goOn s _ => some s

/-- The characters left where something can be wrong. -/
def faults : Turn n → List Nat
  | finished _ | goOn _ _ => []
  | failed f => [f.left]
  | asking _ left turn => left :: turn.faults

theorem lt_of_next? {turn : Turn n} {s : Scan} (h : turn.next? = some s) : s.text.length < n := by
  induction turn with
  | finished items => cases h
  | failed f => cases h
  | asking name left turn ih => exact ih h
  | goOn s' hlt =>
    cases h
    exact hlt

/-- The outline that comes of it, if that of the next round is known. -/
def outline (onward : (s : Scan) → s.text.length < n → Outline) : Turn n → Outline
  | finished items => .finished items
  | failed f => .failed f
  | asking name left turn => .asking name left (turn.outline onward)
  | goOn s h => onward s h

/-- What a source comes to if this is its last round and each partial that is asked for is there. -/
def result? : Turn n → Option (Except Failure (List Item))
  | finished items => some (.ok items)
  | failed f => some (.error f)
  | asking _ _ turn => turn.result?
  | goOn _ _ => none

theorem ending_outline (onward : (s : Scan) → s.text.length < n → Outline) (turn : Turn n) :
    turn.result? = some (turn.outline onward).ending ∨
      ∃ s h, turn.next? = some s ∧ (turn.outline onward).ending = (onward s h).ending := by
  induction turn with
  | finished items => exact .inl rfl
  | failed f => exact .inl rfl
  | asking name left turn ih => exact ih
  | goOn s h => exact .inr ⟨s, h, rfl, rfl⟩

end Turn

namespace Scan

def start (source : String) : Scan where
  text := source.toList
  search := source.toList
  ordered := List.suffix_refl _

def found (s : Scan) : Span := ⟨s.text, (Text.mark s.search).chars⟩

theorem found_suffix (s : Scan) : s.found.stop <:+ s.found.start :=
  (Text.mark_suffix _).trans s.ordered

def front (s : Scan) : List Char := s.pending ++ s.found.text

def onward (pushed : Draft) (mark : Nat) {n m : Nat} (h : m < n) :
    Except Failure (TagRead m) → Turn n
  | .error f => .failed f
  | .ok r =>
    match pushed.add r.tag with
    | .error f => .failed f
    | .ok draft =>
      .goOn { draft, trims := r.trims, mark := r.mark.getD mark, text := r.rest, search := r.rest
              ordered := List.suffix_refl _ } (Nat.lt_of_le_of_lt r.le h)

theorem suffix_of_mark {s : Scan} {m : Text.Mark} (h : Text.mark s.search = m) :
    m.chars <:+ s.text := by
  rw [← h]
  exact s.found_suffix

theorem rest_lt {s : Scan} {inside : List Char} (h : Text.mark s.search = .tag inside) :
    (Opener.read inside).rest.length < s.text.length := by
  have hlength := (suffix_of_mark h).length_le
  rw [Text.Mark.chars, List.length_cons, List.length_cons] at hlength
  exact Nat.lt_of_le_of_lt (Opener.read_length inside) (Nat.lt_of_succ_lt hlength)

theorem escaped_lt {s : Scan} {c : Char} {rest : List Char}
    (h : Text.mark s.search = .escape c rest) : (c :: rest).length < s.text.length :=
  (suffix_of_mark h).length_le

def round (d : Dialect) (s : Scan) : Turn s.text.length :=
  match h : Text.mark s.search with
  | .none => .ofExcept ((s.draft.pushText (Text.trimIf s.trims false s.front)).finish s.mark)
  | .escape c rest =>
    .goOn { s with pending := s.front, text := c :: rest, search := rest
                   ordered := List.suffix_cons c rest } (escaped_lt h)
  | .tag inside =>
    let opener := Opener.read inside
    let pushed := s.draft.pushText (Text.trimIf s.trims opener.trims s.front)
    match opener.sigil with
    | .inclusion =>
      match Asked.read d opener.rest with
      | .error f => .failed f
      | .ok asked => .asking asked.name asked.left (onward pushed s.mark (rest_lt h) asked.tag)
    | _ =>
      onward pushed s.mark (rest_lt h) (TagRead.read d pushed.place (inside.length + 2) opener)

def run (d : Dialect) (s : Scan) : Outline := (s.round d).outline fun s' _ => run d s'
termination_by s.text.length

end Scan

namespace Outline
variable {cs text inside : List Char}

def onward (d : Dialect) (pushed : Draft) (mark : Nat) {n : Nat} :
    Except Failure (TagRead n) → Outline
  | .error f => failed f
  | .ok r =>
    match pushed.add r.tag with
    | .error f => failed f
    | .ok draft => read d draft r.trims (r.mark.getD mark) r.rest

def atTag (d : Dialect) (draft : Draft) (trims : Bool) (mark : Nat) (text inside : List Char) :
    Outline :=
  let opener := Opener.read inside
  let pushed := draft.pushText (Text.trimIf trims opener.trims text)
  match opener.sigil with
  | .inclusion =>
    match Asked.read d opener.rest with
    | .error f => failed f
    | .ok asked => asking asked.name asked.left (onward d pushed mark asked.tag)
  | _ => onward d pushed mark (TagRead.read d pushed.place (inside.length + 2) opener)

theorem read_at_tag (hplain : Text.plain cs = (text, some inside)) (d : Dialect) (draft : Draft)
    (trims : Bool) (mark : Nat) :
    read d draft trims mark cs = atTag d draft trims mark text inside := by
  rw [read]
  split
  · next hnone =>
    rw [hplain] at hnone
    cases hnone
  · next inside' hsome =>
    rw [hplain] at hsome
    cases hsome
    simp only [hplain, atTag]
    generalize draft.pushText _ = pushed
    generalize Opener.read inside = opener
    cases opener.sigil with
    | inclusion =>
      cases Asked.read d opener.rest with
      | error f => rfl
      | ok asked =>
        obtain ⟨name, left, tag⟩ := asked
        cases tag with
        | error f => rfl
        | ok r => cases hadd : pushed.add r.tag <;> simp only [onward, hadd]
    | _ =>
      cases TagRead.read d pushed.place (inside.length + 2) opener with
      | error f => rfl
      | ok r => cases hadd : pushed.add r.tag <;> simp only [onward, hadd]

/-- The text in front of a tag, trimmed as the tags around it say, is as good as in the draft. -/
theorem read_pushed (hplain : Text.plain cs = (text, some inside)) (d : Dialect) (draft : Draft)
    (trims : Bool) (mark : Nat) :
    read d draft trims mark cs =
      read d (draft.pushText (Text.trimIf trims (Opener.read inside).trims text)) false mark
        ('\x7b' :: '\x7b' :: inside) := by
  have hbare : Text.plain ('\x7b' :: '\x7b' :: inside) = ([], some inside) := rfl
  have hnil : Text.trimIf false (Opener.read inside).trims [] = [] := by
    cases (Opener.read inside).trims <;> rfl
  rw [read_at_tag hplain, read_at_tag hbare]
  unfold atTag
  dsimp only
  rw [hnil]
  rfl

end Outline

namespace Scan

def rest (d : Dialect) (s : Scan) : Outline :=
  match Text.inFront (s.pending ++ Span.text ⟨s.text, s.search⟩) (Text.plain s.search) with
  | (text, none) =>
    .ofExcept ((s.draft.pushText (Text.trimIf s.trims false text)).finish s.mark)
  | (text, some inside) => .atTag d s.draft s.trims s.mark text inside

variable {d : Dialect} {s : Scan}

theorem rest_of_fresh (hpending : s.pending = []) (hsearch : s.search = s.text) :
    s.rest d = .read d s.draft s.trims s.mark s.text := by
  unfold rest
  rw [hpending, hsearch, Span.text_self]
  cases hplain : Text.plain s.text with
  | mk text found =>
    cases found with
    | none => exact (read_none hplain s.draft s.trims s.mark).symm
    | some inside => exact (Outline.read_at_tag hplain d s.draft s.trims s.mark).symm

/-- The text in front of the next mark, by way of the search position. -/
theorem front_eq (s : Scan) :
    s.front = s.pending ++ Span.text ⟨s.text, s.search⟩ ++
      Span.text ⟨s.search, (Text.mark s.search).chars⟩ := by
  rw [List.append_assoc, Span.text_trans s.ordered (Text.mark_suffix _)]
  rfl

theorem outline_onward
    (ih : ∀ s' : Scan, s'.text.length < s.text.length → s'.run d = s'.rest d) (pushed : Draft)
    (mark : Nat) {m : Nat} (h : m < s.text.length) (tag : Except Failure (TagRead m)) :
    (onward pushed mark h tag).outline (fun s' _ => s'.run d) = .onward d pushed mark tag := by
  cases tag with
  | error f => rfl
  | ok r =>
    cases hadd : pushed.add r.tag with
    | error f => simp only [onward, Outline.onward, hadd, Turn.outline]
    | ok draft =>
      simp only [onward, Outline.onward, hadd, Turn.outline]
      rw [ih]
      · exact rest_of_fresh rfl rfl
      · exact Nat.lt_of_le_of_lt r.le h

theorem run_eq_rest (d : Dialect) (s : Scan) : s.run d = s.rest d := by
  induction hn : s.text.length using Nat.strongRecOn generalizing s with
  | ind n ih =>
    subst hn
    have hih (s' : Scan) (h : s'.text.length < s.text.length) := ih _ h s' rfl
    have hplain := Text.plain_eq s.search
    have hfront := s.front_eq
    rw [run, round]
    split
    · next hmark =>
      rw [hmark] at hplain hfront
      rw [rest, hplain, hfront]
      dsimp only [Text.Mark.found, Text.inFront]
      cases Draft.finish _ _ <;> rfl
    · next c after hmark =>
      rw [hmark] at hplain hfront
      refine (hih _ (escaped_lt hmark)).trans ?_
      rw [rest, rest, hplain, Span.text_cons, hfront]
      simp only [Text.Mark.found, Text.inFront, List.append_assoc]
    · next inside hmark =>
      rw [hmark] at hplain hfront
      rw [rest, hplain, hfront]
      dsimp only [Text.Mark.found, Text.inFront, Outline.atTag]
      cases (Opener.read inside).sigil with
      | inclusion =>
        cases Asked.read d (Opener.read inside).rest with
        | error f => rfl
        | ok asked =>
          exact congrArg (Outline.asking asked.name asked.left)
            (outline_onward hih _ s.mark (rest_lt hmark) asked.tag)
      | _ => exact outline_onward hih _ s.mark (rest_lt hmark) _

inductive Rounds (d : Dialect) (s : Scan) : Nat → Scan → Prop
  | start : Rounds d s 0 s
  | next {n : Nat} {s' s'' : Scan} (h : Rounds d s n s') (hnext : (s'.round d).next? = some s'') :
    Rounds d s (n + 1) s''

/-- The rounds come to an end, and the last one decides. -/
theorem Rounds.exists_last {n : Nat} {s' : Scan} (h : Rounds d s n s') :
    ∃ m last, Rounds d s m last ∧ (last.round d).result? = some (s'.run d).ending := by
  induction hlength : s'.text.length using Nat.strongRecOn generalizing n s' with
  | ind k ih =>
    subst hlength
    rw [run]
    rcases Turn.ending_outline (fun s _ => run d s) (s'.round d) with hlast | ⟨s'', hlt, hnext, heq⟩
    · exact ⟨n, s', h, hlast⟩
    · rw [heq]
      exact ih _ hlt (.next h hnext) rfl

theorem run_start (d : Dialect) (source : String) :
    (start source).run d = .ofSource d source := by
  rw [run_eq_rest]
  exact rest_of_fresh rfl rfl

end Scan
end Stencil
