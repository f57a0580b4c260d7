import Stencil.Proofs.Pieces

set_option autoImplicit false

/-!
# Drafts piece by piece

A source that is written piece by piece comes to the draft that its pieces make one after another.
Texts that meet there are one text.
-/
namespace Stencil

/-- One list after another, where texts that meet become one. -/
def join : List Item → List Item → List Item
  | [], items => items
  | [.text s], .text t :: items => .text (s ++ t) :: items
  | x :: xs, items => x :: join xs items

def textItems (cs : List Char) : List Item := if cs = [] then [] else [.text (String.ofList cs)]

def Closed (items : List Item) : Prop := ∀ t, items.getLast? ≠ some (.text t)

theorem join_cons_cons (x y : Item) (ys items : List Item) :
    join (x :: y :: ys) items = x :: join (y :: ys) items := by
  cases x <;> rfl

theorem join_nil (xs : List Item) : join xs [] = xs := by
  induction xs with
  | nil => rfl
  | cons x xs ih =>
    cases xs with
    | nil => cases x <;> rfl
    | cons y ys =>
      rw [join_cons_cons, ih]

theorem join_text_text (s t : String) (ys : List Item) :
    join [.text s] (.text t :: ys) = .text (s ++ t) :: ys := rfl

theorem join_singleton_append (x : Item) {ys : List Item} (zs : List Item) (hne : ys ≠ []) :
    join (join [x] ys) zs = join [x] (join ys zs) := by
  obtain ⟨y, ys, rfl⟩ := List.exists_cons_of_ne_nil hne
  cases ys with
  | cons y' ys =>
    rw [join_cons_cons]
    cases x <;> cases y <;> rfl
  | nil =>
    cases zs with
    | nil => rw [join_nil, join_nil]
    | cons z zs =>
      cases x <;> cases y <;> cases z <;> simp only [join, String.append_assoc]

theorem join_assoc (xs ys zs : List Item) : join (join xs ys) zs = join xs (join ys zs) := by
  by_cases hne : ys = []
  · subst hne
    rw [join_nil]
    rfl
  · induction xs with
    | nil => rfl
    | cons x xs ih =>
      cases xs with
      | nil => exact join_singleton_append x zs hne
      | cons y xs =>
        rw [join_cons_cons, join_cons_cons, ← ih]
        have hcons : ∃ w ws, join (y :: xs) ys = w :: ws := by
          cases xs with
          | nil =>
            obtain ⟨z, zs, rfl⟩ := List.exists_cons_of_ne_nil hne
            cases y <;> cases z <;> exact ⟨_, _, rfl⟩
          | cons z zs => exact ⟨y, _, join_cons_cons y z zs ys⟩
        obtain ⟨w, ws, hw⟩ := hcons
        rw [hw, join_cons_cons]

theorem closed_nil : Closed [] := by
  intro t
  simp

theorem join_of_closed {xs : List Item} (h : Closed xs) (items : List Item) :
    join xs items = xs ++ items := by
  induction xs with
  | nil => rfl
  | cons x xs ih =>
    cases xs with
    | nil =>
      cases x with
      | text t => exact absurd rfl (h t)
      | _ => rfl
    | cons y ys =>
      have htail : Closed (y :: ys) := by
        intro t ht
        rw [← List.getLast?_cons_cons (a := x)] at ht
        exact h t ht
      rw [join_cons_cons, ih htail]
      rfl

def Item.isText : Item → Bool
  | .text _ => true
  | _ => false

theorem closed_concat (xs : List Item) {x : Item} (h : x.isText = false) : Closed (xs ++ [x]) := by
  intro t ht
  rw [List.getLast?_append, List.getLast?_singleton, Option.some_or] at ht
  cases ht
  cases h

theorem join_singleton (xs : List Item) {x : Item} (h : x.isText = false) :
    join xs [x] = xs ++ [x] := by
  induction xs with
  | nil => rfl
  | cons y ys ih =>
    cases ys with
    | nil => cases x <;> cases y <;> first | rfl | cases h
    | cons z zs =>
      rw [join_cons_cons, ih]
      rfl

theorem join_cons {x : Item} (h : x.isText = false) (items : List Item) :
    join [x] items = x :: items := by
  cases x <;> first | rfl | cases h

theorem join_textItems (cs cs' : List Char) :
    join (textItems cs) (textItems cs') = textItems (cs ++ cs') := by
  by_cases hcs : cs = []
  · subst hcs
    rfl
  · by_cases hcs' : cs' = []
    · subst hcs'
      rw [List.append_nil]
      exact join_nil _
    · have hne : cs ++ cs' ≠ [] := by simp [hcs]
      unfold textItems
      rw [if_neg hcs, if_neg hcs', if_neg hne, join_text_text, String.ofList_append]

def OpenBlock.current (b : OpenBlock) : List Item :=
  match b.branch with
  | .main => b.body
  | .inverse => b.inverse

def OpenBlock.write (items : List Item) (b : OpenBlock) : OpenBlock :=
  match b.branch with
  | .main => { b with body := join b.body items }
  | .inverse => { b with inverse := join b.inverse items }

namespace Draft

def current (d : Draft) : List Item :=
  match d.blocks with
  | [] => d.items
  | b :: _ => b.current

def write (items : List Item) (d : Draft) : Draft :=
  match d.blocks with
  | [] => { d with items := join d.items items }
  | b :: outer => { d with blocks := b.write items :: outer }

def close (name : String) (d : Draft) : Except SyntaxErrorKind Draft :=
  match d.blocks with
  | [] => .error .unbalancedClose
  | b :: outer => do
    let (item, blocks) ← b.close name outer
    return push item { d with blocks }

def ended (d : Draft) : Except SyntaxErrorKind (List Item) :=
  match d.blocks with
  | [] => .ok d.items
  | b :: _ => .error (.blockStillOpen b.call.name)

theorem write_nil (d : Draft) : d.write [] = d := by
  obtain ⟨items, blocks⟩ := d
  cases blocks with
  | nil => exact congrArg (Draft.mk · []) (join_nil items)
  | cons b outer =>
    obtain ⟨call, chained, branch, body, inverse⟩ := b
    cases branch <;> simp only [write, OpenBlock.write, join_nil]

theorem write_write (d : Draft) (xs ys : List Item) :
    (d.write xs).write ys = d.write (join xs ys) := by
  obtain ⟨items, blocks⟩ := d
  cases blocks with
  | nil => simp only [write, join_assoc]
  | cons b outer =>
    obtain ⟨call, chained, branch, body, inverse⟩ := b
    cases branch <;> simp only [write, OpenBlock.write, join_assoc]

theorem push_eq_write (d : Draft) {item : Item} (h : item.isText = false) :
    d.push item = d.write [item] := by
  obtain ⟨items, blocks⟩ := d
  cases blocks with
  | nil => simp only [push, write, join_singleton _ h]
  | cons b outer =>
    obtain ⟨call, chained, branch, body, inverse⟩ := b
    cases branch <;>
      simp only [push, write, OpenBlock.push, OpenBlock.write, join_singleton _ h]

theorem write_textItems {d : Draft} (h : Closed d.current) (cs : List Char) :
    d.write (textItems cs) = d.pushText cs := by
  unfold pushText textItems
  by_cases hcs : cs = []
  · rw [if_pos hcs, if_pos hcs, write_nil]
  · rw [if_neg hcs, if_neg hcs]
    obtain ⟨items, blocks⟩ := d
    cases blocks with
    | nil =>
      have hitems : Closed items := h
      simp only [write, push, join_of_closed hitems]
    | cons b outer =>
      obtain ⟨call, chained, branch, body, inverse⟩ := b
      cases branch with
      | main =>
        have hbody : Closed body := h
        simp only [write, push, OpenBlock.push, OpenBlock.write, join_of_closed hbody]
      | inverse =>
        have hinverse : Closed inverse := h
        simp only [write, push, OpenBlock.push, OpenBlock.write, join_of_closed hinverse]

end Draft

def valueItem (escape : Bool) (e : Expr) : Item := if escape then .escaped e else .unescaped e

def Piece.addTo (d : Draft) : Piece → Except SyntaxErrorKind Draft
  | .text cs => .ok (d.write (textItems cs))
  | .value escape e => .ok (d.push (valueItem escape e))
  | .opening call => .ok (d.openBlock call false)
  | .otherwise =>
    match otherwiseFault? d.place with
    | some kind => .error kind
    | none => .ok d.toInverse
  | .otherwiseOpening call =>
    match otherwiseFault? d.place with
    | some kind => .error kind
    | none => .ok (d.toInverse.openBlock call true)
  | .closing name => d.close name

def Draft.addAll (d : Draft) (ps : List Piece) : Except SyntaxErrorKind Draft :=
  ps.foldlM Piece.addTo d

/-- The inverse body of a block is empty until an else marker is met. -/
def OpenBlock.Fresh (b : OpenBlock) : Prop := b.branch = .main → b.inverse = []

structure Draft.Settled (d : Draft) : Prop where
  closed : Closed d.current
  fresh : ∀ b ∈ d.blocks, b.Fresh

theorem OpenBlock.Fresh.push {b : OpenBlock} (h : b.Fresh) (item : Item) : (b.push item).Fresh := by
  obtain ⟨call, chained, branch, body, inverse⟩ := b
  cases branch with
  | main => exact h
  | inverse =>
    intro hmain
    cases hmain

theorem OpenBlock.closed_push (b : OpenBlock) {item : Item} (h : item.isText = false) :
    Closed (b.push item).current := by
  obtain ⟨call, chained, branch, body, inverse⟩ := b
  cases branch with
  | main => exact closed_concat body h
  | inverse => exact closed_concat inverse h

/-- What a close tag leaves open was open, with a closed block at most put into it. -/
theorem OpenBlock.close_fresh {name : String} {b : OpenBlock} {outer blocks : List OpenBlock}
    {item : Item} (hclose : b.close name outer = .ok (item, blocks))
    (hfresh : ∀ c ∈ outer, c.Fresh) : item.isText = false ∧ ∀ c ∈ blocks, c.Fresh := by
  have hnamed : ∀ {b : OpenBlock} {outer blocks : List OpenBlock} {item : Item},
      b.closeNamed name outer = .ok (item, blocks) → item.isText = false ∧ blocks = outer := by
    intro b outer blocks item h
    unfold closeNamed at h
    split at h
    · cases h
      exact ⟨rfl, rfl⟩
    · cases h
  induction outer generalizing b with
  | nil =>
    unfold close at hclose
    split at hclose
    · cases hclose
    · obtain ⟨htext, rfl⟩ := hnamed hclose
      exact ⟨htext, hfresh⟩
  | cons next outer ih =>
    unfold close at hclose
    split at hclose
    · exact ih hclose fun c hc => hfresh c (List.mem_cons_of_mem _ hc)
    · obtain ⟨htext, rfl⟩ := hnamed hclose
      exact ⟨htext, hfresh⟩

namespace Draft

theorem Settled.push {d : Draft} (hfresh : ∀ b ∈ d.blocks, b.Fresh) {item : Item}
    (h : item.isText = false) : (d.push item).Settled := by
  obtain ⟨items, blocks⟩ := d
  cases blocks with
  | nil => exact ⟨closed_concat items h, hfresh⟩
  | cons b outer =>
    refine ⟨b.closed_push h, ?_⟩
    intro c hc
    rcases List.mem_cons.1 hc with rfl | hc
    · exact (hfresh b List.mem_cons_self).push item
    · exact hfresh c (List.mem_cons_of_mem _ hc)

theorem Settled.openBlock {d : Draft} (hfresh : ∀ b ∈ d.blocks, b.Fresh) (call : Call Expr)
    (chained : Bool) : (d.openBlock call chained).Settled := by
  refine ⟨closed_nil, ?_⟩
  intro c hc
  rcases List.mem_cons.1 hc with rfl | hc
  · exact fun _ => rfl
  · exact hfresh c hc

theorem Settled.toInverse {d : Draft} (hfresh : ∀ b ∈ d.blocks, b.Fresh)
    (hplace : otherwiseFault? d.place = none) : d.toInverse.Settled := by
  obtain ⟨items, blocks⟩ := d
  cases blocks with
  | nil => cases hplace
  | cons b outer =>
    obtain ⟨call, chained, branch, body, inverse⟩ := b
    cases branch with
    | inverse => cases hplace
    | main =>
      have hinverse : inverse = [] := hfresh _ List.mem_cons_self rfl
      subst hinverse
      refine ⟨closed_nil, ?_⟩
      intro c hc
      rcases List.mem_cons.1 hc with rfl | hc
      · exact fun _ => rfl
      · exact hfresh c (List.mem_cons_of_mem _ hc)

theorem Settled.close {d d' : Draft} (hfresh : ∀ b ∈ d.blocks, b.Fresh) {name : String}
    (h : d.close name = .ok d') : d'.Settled := by
  obtain ⟨items, blocks⟩ := d
  cases blocks with
  | nil => cases h
  | cons b outer =>
    change (b.close name outer >>= _) = _ at h
    cases hclose : b.close name outer with
    | error kind =>
      rw [hclose] at h
      cases h
    | ok closed =>
      rw [hclose] at h
      cases h
      obtain ⟨htext, hblocks⟩ :=
        OpenBlock.close_fresh hclose fun c hc => hfresh c (List.mem_cons_of_mem _ hc)
      exact Settled.push hblocks htext

theorem fresh_write {d : Draft} (hfresh : ∀ b ∈ d.blocks, b.Fresh) (items : List Item) :
    ∀ b ∈ (d.write items).blocks, b.Fresh := by
  obtain ⟨done, blocks⟩ := d
  cases blocks with
  | nil => exact hfresh
  | cons b outer =>
    intro c hc
    rcases List.mem_cons.1 hc with rfl | hc
    · obtain ⟨call, chained, branch, body, inverse⟩ := b
      cases branch with
      | main => exact fun _ => hfresh ⟨call, chained, .main, body, inverse⟩ List.mem_cons_self rfl
      | inverse =>
        intro hmain
        cases hmain
    · exact hfresh c (List.mem_cons_of_mem _ hc)

end Draft

theorem isText_valueItem (escape : Bool) (e : Expr) : (valueItem escape e).isText = false := by
  cases escape <;> rfl

def Piece.isText : Piece → Bool
  | .text _ => true
  | _ => false

theorem Piece.settled_of_addTo {d d' : Draft} {p : Piece} (htag : p.isText = false)
    (hfresh : ∀ b ∈ d.blocks, b.Fresh) (h : p.addTo d = .ok d') : d'.Settled := by
  cases p with
  | text cs => cases htag
  | value escape e =>
    cases h
    exact Draft.Settled.push hfresh (isText_valueItem escape e)
  | opening call =>
    cases h
    exact Draft.Settled.openBlock hfresh call false
  | otherwise =>
    cases hplace : otherwiseFault? d.place with
    | some kind =>
      rw [addTo, hplace] at h
      cases h
    | none =>
      rw [addTo, hplace] at h
      cases h
      exact Draft.Settled.toInverse hfresh hplace
  | otherwiseOpening call =>
    cases hplace : otherwiseFault? d.place with
    | some kind =>
      rw [addTo, hplace] at h
      cases h
    | none =>
      rw [addTo, hplace] at h
      cases h
      exact Draft.Settled.openBlock (Draft.Settled.toInverse hfresh hplace).fresh call true
  | closing name => exact Draft.Settled.close hfresh h

theorem plain_cons {c : Char} (h : c ≠ '\x7b' ∧ c ≠ '\\') (cs : List Char) :
    Text.plain (c :: cs) = Text.inFront [c] (Text.plain cs) := by
  rw [Text.plain]
  · intro d ds hc _
    exact h.2 hc
  · intro ds hc _
    exact h.1 hc

theorem plain_append {cs : List Char} (h : IsPlain cs) (more : List Char) :
    Text.plain (cs ++ more) = Text.inFront cs (Text.plain more) := by
  induction cs with
  | nil => rfl
  | cons c cs ih =>
    rw [List.cons_append, plain_cons (h c List.mem_cons_self),
      ih fun c hc => h c (List.mem_cons_of_mem _ hc)]
    rfl

theorem plain_tag {cs : List Char} (h : IsPlain cs) (inside : List Char) :
    Text.plain (cs ++ '\x7b' :: '\x7b' :: inside) = (cs, some inside) := by
  rw [plain_append h]
  change (cs ++ [], _) = _
  rw [List.append_nil]
  rfl

theorem plain_end {cs : List Char} (h : IsPlain cs) : Text.plain cs = (cs, none) := by
  have hplain := plain_append h []
  rw [List.append_nil] at hplain
  rw [hplain]
  change (cs ++ [], _) = _
  rw [List.append_nil]
  rfl

section
variable {d : Dialect} {draft : Draft} {cs text pending inside : List Char}

theorem read_none (hplain : Text.plain cs = (text, none)) (draft : Draft) (trims : Bool)
    (mark : Nat) :
    Outline.read d draft trims mark cs =
      Outline.ofExcept ((draft.pushText (Text.trimIf trims false text)).finish mark) := by
  rw [Outline.read]
  split
  · rw [hplain]
  · next hsome =>
    rw [hplain] at hsome
    cases hsome

theorem read_some (hplain : Text.plain cs = (text, some inside))
    (hsigil : (Opener.read inside).sigil ≠ .inclusion) (draft : Draft) (trims : Bool)
    (mark : Nat) :
    let pushed := draft.pushText (Text.trimIf trims (Opener.read inside).trims text)
    Outline.read d draft trims mark cs =
      match TagRead.read d pushed.place (inside.length + 2) (Opener.read inside) with
      | .error f => .failed f
      | .ok r =>
        match pushed.add r.tag with
        | .error f => .failed f
        | .ok draft => Outline.read d draft r.trims (r.mark.getD mark) r.rest := by
  intro pushed
  rw [Outline.read]
  split
  · next hnone =>
    rw [hplain] at hnone
    cases hnone
  · next inside' hsome =>
    have hinside := hsome
    rw [hplain] at hinside
    cases hinside
    have htext : (Text.plain cs).1 = text := by rw [hplain]
    simp only [htext]
    cases TagRead.read d pushed.place (inside.length + 2) (Opener.read inside) with
    | error f => rfl
    | ok r => cases hadd : pushed.add r.tag <;> simp only [pushed, hadd] at *

theorem read_end (h : IsPlain pending) (mark : Nat) :
    Outline.read d draft false mark pending =
      Outline.ofExcept ((draft.pushText pending).finish mark) :=
  read_none (plain_end h) draft false mark

theorem read_tag (h : IsPlain pending) (hsigil : (Opener.read inside).sigil ≠ .inclusion)
    (htrims : (Opener.read inside).trims = false) (mark : Nat) :
    Outline.read d draft false mark (pending ++ '\x7b' :: '\x7b' :: inside) =
      match TagRead.read d (draft.pushText pending).place (inside.length + 2)
        (Opener.read inside) with
      | .error f => .failed f
      | .ok r =>
        match (draft.pushText pending).add r.tag with
        | .error f => .failed f
        | .ok draft => Outline.read d draft r.trims (r.mark.getD mark) r.rest := by
  have hread := read_some (d := d) (plain_tag h inside) hsigil draft false mark
  rw [htrims] at hread
  exact hread

end

/-- Behind a piece an outline goes on with what the piece makes of the draft. -/
def GoesOn (d : Dialect) (more : List Char) (o : Outline) : Except SyntaxErrorKind Draft → Prop
  | .ok draft => ∃ mark, o = Outline.read d draft false mark more
  | .error kind => ∃ left, o = .failed ⟨left, kind⟩

section
variable {d : Dialect} {draft : Draft} {pending inside more : List Char}

theorem goesOn_of_reads {t : Tag} {x : Except SyntaxErrorKind Draft} (left : Nat)
    (h : IsPlain pending) (hreads : Reads d (draft.pushText pending).place inside t more)
    (hadd : (draft.pushText pending).addTag t = x.mapError fun kind => ⟨left, kind⟩) (mark : Nat) :
    GoesOn d more (Outline.read d draft false mark (pending ++ '\x7b' :: '\x7b' :: inside)) x := by
  obtain ⟨r, hr, htag, htrims, hrest⟩ := hreads.read (inside.length + 2)
  rw [read_tag h hreads.sigil hreads.trims, hr]
  dsimp only
  rw [htag, htrims, hrest]
  dsimp only [Draft.add]
  rw [hadd]
  cases x with
  | ok draft' => exact ⟨r.mark.getD mark, rfl⟩
  | error kind => exact ⟨left, rfl⟩

theorem goesOn_of_refuses {kind : SyntaxErrorKind} (h : IsPlain pending)
    (hrefuses : Refuses d (draft.pushText pending).place inside kind) (mark : Nat) :
    GoesOn d more (Outline.read d draft false mark (pending ++ '\x7b' :: '\x7b' :: inside))
      (.error kind) := by
  obtain ⟨l, hr⟩ := hrefuses.read (inside.length + 2)
  rw [read_tag h hrefuses.sigil hrefuses.trims, hr]
  exact ⟨l, rfl⟩

theorem place_of_otherwiseFault? {place : Option Branch} (h : otherwiseFault? place = none) :
    place = some .main := by
  unfold otherwiseFault? at h
  split at h
  · cases h
  · cases h
  · rfl

theorem addTag_closing (draft : Draft) (name : String) (left : Nat) :
    draft.addTag (.closing name left) = (draft.close name).mapError fun kind => ⟨left, kind⟩ := by
  obtain ⟨items, blocks⟩ := draft
  cases blocks with
  | nil => rfl
  | cons b outer =>
    unfold Draft.addTag Draft.close
    dsimp only
    cases b.close name outer <;> rfl

theorem goesOn_tag {p : Piece} {cs : List Char} (first : WrittenTag d p cs)
    (hd : d.knownHelpersOnly = false) (h : IsPlain pending) (draft : Draft) (mark : Nat)
    (more : List Char) :
    GoesOn d more (Outline.read d draft false mark (pending ++ '\x7b' :: '\x7b' :: (cs ++ more)))
      (p.addTo (draft.pushText pending)) := by
  cases first with
  | escaped begins reads =>
    rw [List.append_assoc]
    exact goesOn_of_reads 0 h (reads_escaped begins reads _ more) rfl mark
  | unescaped reads =>
    rw [List.cons_append, List.append_assoc]
    exact goesOn_of_reads 0 h (reads_unescaped reads _ more) rfl mark
  | triple begins reads =>
    rw [List.cons_append, List.append_assoc]
    exact goesOn_of_reads 0 h (reads_triple begins reads _ more) rfl mark
  | opening p reads =>
    rw [List.cons_append, List.append_assoc, List.append_assoc]
    exact goesOn_of_reads 0 h (reads_opening p _ (Call.allowed_of_lenient hd _) reads more) rfl mark
  | negated p =>
    rw [List.cons_append, List.append_assoc]
    exact goesOn_of_reads 0 h (reads_negated p _ more) rfl mark
  | closing p =>
    rw [List.cons_append, List.append_assoc]
    obtain ⟨left, hreads⟩ := reads_closing p (draft.pushText pending).place (d := d) more
    exact goesOn_of_reads left h hreads (addTag_closing _ _ left) mark
  | otherwise =>
    rw [List.append_assoc]
    unfold Piece.addTo
    cases hplace : otherwiseFault? (draft.pushText pending).place with
    | some kind => exact goesOn_of_refuses h (refuses_otherwise hplace d more) mark
    | none =>
      have hmain := place_of_otherwiseFault? hplace
      exact goesOn_of_reads 0 h (hmain ▸ reads_otherwise d more) rfl mark
  | caret =>
    unfold Piece.addTo
    cases hplace : otherwiseFault? (draft.pushText pending).place with
    | some kind => exact goesOn_of_refuses h (refuses_caret hplace d more) mark
    | none =>
      have hmain := place_of_otherwiseFault? hplace
      exact goesOn_of_reads 0 h (hmain ▸ reads_caret d more) rfl mark
  | @otherwiseOpening p blanks cs args hne hblanks reads =>
    rw [List.append_assoc, List.append_assoc, List.append_assoc, List.append_assoc]
    unfold Piece.addTo
    cases hplace : otherwiseFault? (draft.pushText pending).place with
    | some kind =>
      exact goesOn_of_refuses h (refuses_otherwiseOpening p hne hblanks hplace reads more) mark
    | none =>
      have hmain := place_of_otherwiseFault? hplace
      have hallowed := Call.allowed_of_lenient hd (p.call d args)
      exact goesOn_of_reads 0 h
        (hmain ▸ reads_otherwiseOpening p hne hblanks hallowed reads more) rfl mark

theorem WrittenTag.isText {p : Piece} {cs : List Char} (h : WrittenTag d p cs) :
    p.isText = false := by
  cases h <;> rfl

def Draft.total (draft : Draft) (ps : List Piece) : Except SyntaxErrorKind (List Item) :=
  draft.addAll ps >>= Draft.ended

theorem Draft.total_cons (draft : Draft) (p : Piece) (ps : List Piece) :
    draft.total (p :: ps) = p.addTo draft >>= fun draft => draft.total ps := by
  unfold total addAll
  rw [List.foldlM_cons, bind_assoc]

theorem finish_eq (draft : Draft) (mark : Nat) :
    draft.finish mark = draft.ended.mapError fun kind => ⟨mark, kind⟩ := by
  obtain ⟨items, blocks⟩ := draft
  cases blocks <;> rfl

/-- A written source comes to what its pieces come to. -/
theorem read_written {ps : List Piece} {cs : List Char} (h : Written d ps cs)
    (hd : d.knownHelpersOnly = false) (hdraft : draft.Settled) (hpending : IsPlain pending)
    (mark : Nat) :
    ∃ left, Outline.read d draft false mark (pending ++ cs) = Outline.ofExcept
      (((draft.write (textItems pending)).total ps).mapError fun kind => ⟨left, kind⟩) := by
  induction h generalizing draft pending mark with
  | nil =>
    rw [List.append_nil, read_end hpending, finish_eq, Draft.write_textItems hdraft.closed]
    exact ⟨mark, rfl⟩
  | @text cs more ps plain later ih =>
    have hboth : IsPlain (pending ++ cs) := by
      intro c hc
      rcases List.mem_append.1 hc with hc | hc
      · exact hpending c hc
      · exact plain c hc
    obtain ⟨left, hread⟩ := ih hdraft hboth mark
    refine ⟨left, ?_⟩
    rw [← List.append_assoc, hread, Draft.total_cons]
    change _ = Outline.ofExcept ((((draft.write (textItems pending)).write
      (textItems cs)).total ps).mapError _)
    rw [Draft.write_write, join_textItems]
  | @tag p cs more ps first later ih =>
    have hstep := goesOn_tag first hd hpending draft mark more
    have hfresh := Draft.fresh_write hdraft.fresh (textItems pending)
    rw [Draft.write_textItems hdraft.closed] at hfresh ⊢
    rw [Draft.total_cons]
    cases hadd : p.addTo (draft.pushText pending) with
    | error kind =>
      rw [hadd] at hstep
      obtain ⟨left, hleft⟩ := hstep
      exact ⟨left, hleft⟩
    | ok draft' =>
      rw [hadd] at hstep
      obtain ⟨mark', hmark⟩ := hstep
      have hsettled := Piece.settled_of_addTo first.isText hfresh hadd
      have hnone : IsPlain [] := fun c hc => nomatch hc
      obtain ⟨left, hread⟩ := ih hsettled hnone mark'
      refine ⟨left, ?_⟩
      have hempty : draft'.write (textItems []) = draft' := Draft.write_nil draft'
      rw [List.nil_append, hempty] at hread
      rw [hmark, hread]
      rfl

end

end Stencil
