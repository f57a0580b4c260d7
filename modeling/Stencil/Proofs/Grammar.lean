import Stencil.Compile
import Stencil.Proofs.Drafts

set_option autoImplicit false

/-!
# The grammar of blocks

A source compiles if and only if its pieces are a body: texts, values, and blocks with a close tag
of their own name and at most one else marker for each opener. The template is the tree of the
derivation. Otherwise the first piece that cannot go on a body in the making says what is wrong.
-/
namespace Stencil

mutual

inductive Body : List Piece → List Item → Prop
  | empty : Body [] []
  | text {cs : List Char} {ps : List Piece} {items : List Item} (later : Body ps items) :
    Body (.text cs :: ps) (join (textItems cs) items)
  | value {escape : Bool} {e : Expr} {ps : List Piece} {items : List Item}
    (later : Body ps items) : Body (.value escape e :: ps) (valueItem escape e :: items)
  | block {call : Call Expr} {ms rs ps : List Piece} {body inverse items : List Item}
    (main : Body ms body) (rest : Rest rs inverse) (later : Body ps items) :
    Body (.opening call :: (ms ++ (rs ++ .closing call.name :: ps)))
      (.block ⟨call, body, inverse, false⟩ :: items)

inductive Rest : List Piece → List Item → Prop
  | none : Rest [] []
  | otherwise {ps : List Piece} {items : List Item} (body : Body ps items) :
    Rest (.otherwise :: ps) items
  | chained {call : Call Expr} {ms rs : List Piece} {body inverse : List Item}
    (main : Body ms body) (rest : Rest rs inverse) :
    Rest (.otherwiseOpening call :: (ms ++ rs)) [.block ⟨call, body, inverse, true⟩]

end

/-- The pieces of a block without its close tag, from behind the opener with the call `first`: the
call of the last opener of the chain, and whether that has its else marker. -/
inductive Unfinished : Call Expr → List Piece → Call Expr → Bool → Prop
  | main {first : Call Expr} {ps : List Piece} {items : List Item} (body : Body ps items) :
    Unfinished first ps first false
  | inverse {first : Call Expr} {ms ps : List Piece} {body items : List Item}
    (main : Body ms body) (inverse : Body ps items) :
    Unfinished first (ms ++ .otherwise :: ps) first true
  | chained {first call last : Call Expr} {ms ps : List Piece} {body : List Item}
    {inverse : Bool} (main : Body ms body) (rest : Unfinished call ps last inverse) :
    Unfinished first (ms ++ .otherwiseOpening call :: ps) last inverse

structure Unclosed where
  /-- The name that the close tag must have. -/
  name : String
  /-- The name of the last opener. -/
  last : String
  /-- The last opener has its else marker. -/
  inverse : Bool

/-- Pieces that can go on to a body, and the blocks that wait for a close tag, from the innermost
out. -/
inductive Prefix : List Piece → List Unclosed → Prop
  | body {ps : List Piece} {items : List Item} (body : Body ps items) : Prefix ps []
  | opened {ps inside : List Piece} {us : List Unclosed} {call last : Call Expr} {inverse : Bool}
    (before : Prefix ps us) (block : Unfinished call inside last inverse) :
    Prefix (ps ++ .opening call :: inside) (⟨call.name, last.name, inverse⟩ :: us)

def Piece.IsElse : Piece → Prop
  | .otherwise | .otherwiseOpening _ => True
  | _ => False

/-- The first piece at which pieces cannot go on to a body, or their end, and what is wrong. -/
inductive Fault : List Piece → SyntaxErrorKind → Prop
  | elseOutsideBlock {ps more : List Piece} {p : Piece} (before : Prefix ps [])
    (isElse : p.IsElse) : Fault (ps ++ p :: more) .elseOutsideBlock
  | multipleElse {ps more : List Piece} {p : Piece} {u : Unclosed} {us : List Unclosed}
    (before : Prefix ps (u :: us)) (inverse : u.inverse = true) (isElse : p.IsElse) :
    Fault (ps ++ p :: more) .multipleElse
  | unbalancedClose {ps more : List Piece} {name : String} (before : Prefix ps []) :
    Fault (ps ++ .closing name :: more) .unbalancedClose
  | mismatchedClose {ps more : List Piece} {name : String} {u : Unclosed} {us : List Unclosed}
    (before : Prefix ps (u :: us)) (other : u.name ≠ name) :
    Fault (ps ++ .closing name :: more) (.mismatchedClose u.name name)
  | blockStillOpen {ps : List Piece} {u : Unclosed} {us : List Unclosed}
    (before : Prefix ps (u :: us)) : Fault ps (.blockStillOpen u.last)

theorem Body.append {ps qs : List Piece} {xs ys : List Item} (h : Body ps xs) (hy : Body qs ys) :
    Body (ps ++ qs) (join xs ys) := by
  match h with
  | .empty => exact hy
  | .text later =>
    rw [join_assoc]
    exact .text (later.append hy)
  | @Body.value escape e _ items later =>
    rw [← join_cons (isText_valueItem escape e) items, join_assoc,
      join_cons (isText_valueItem escape e)]
    exact .value (later.append hy)
  | @Body.block call _ _ _ body inverse items main rest later =>
    have hcons (items : List Item) := join_cons (x := .block ⟨call, body, inverse, false⟩) rfl items
    rw [← hcons items, join_assoc, hcons]
    simp only [List.cons_append, List.append_assoc]
    exact .block main rest (later.append hy)

namespace Unfinished
variable {first last : Call Expr} {ps : List Piece} {inverse : Bool}

theorem append (h : Unfinished first ps last inverse) {qs : List Piece} {items : List Item}
    (hq : Body qs items) : Unfinished first (ps ++ qs) last inverse := by
  induction h with
  | main body => exact .main (body.append hq)
  | inverse main inverse =>
    rw [List.append_assoc, List.cons_append]
    exact .inverse main (inverse.append hq)
  | chained main _ ih =>
    rw [List.append_assoc, List.cons_append]
    exact .chained main ih

theorem otherwise (h : Unfinished first ps last inverse) (hmain : inverse = false) :
    Unfinished first (ps ++ [.otherwise]) last true := by
  induction h with
  | main body => exact .inverse body .empty
  | inverse => cases hmain
  | chained main _ ih =>
    rw [List.append_assoc, List.cons_append]
    exact .chained main (ih hmain)

theorem otherwiseOpening (h : Unfinished first ps last inverse) (hmain : inverse = false)
    (call : Call Expr) : Unfinished first (ps ++ [.otherwiseOpening call]) call false := by
  induction h with
  | main body => exact .chained body (.main .empty)
  | inverse => cases hmain
  | chained main _ ih =>
    rw [List.append_assoc, List.cons_append]
    exact .chained main (ih hmain)

theorem split (h : Unfinished first ps last inverse) :
    ∃ ms rs body items, ps = ms ++ rs ∧ Body ms body ∧ Rest rs items := by
  induction h with
  | @main first ps items body => exact ⟨ps, [], items, [], (List.append_nil _).symm, body, .none⟩
  | @inverse first ms ps body items main inverse =>
    exact ⟨ms, .otherwise :: ps, body, items, rfl, main, .otherwise inverse⟩
  | @chained first call last ms ps body inverse main _ ih =>
    obtain ⟨ms', rs, body', items, rfl, main', rest⟩ := ih
    exact ⟨ms, _, body, _, rfl, main, .chained main' rest⟩

end Unfinished

namespace Prefix
variable {ps : List Piece} {us : List Unclosed}

theorem append (h : Prefix ps us) {qs : List Piece} {items : List Item} (hq : Body qs items) :
    Prefix (ps ++ qs) us := by
  cases h with
  | body body => exact .body (body.append hq)
  | opened before block =>
    rw [List.append_assoc, List.cons_append]
    exact .opened before (block.append hq)

/-- A further piece goes on a body in the making, or is where that ends. -/
theorem next (h : Prefix ps us) (p : Piece) :
    (∃ us', Prefix (ps ++ [p]) us') ∨ ∀ more, ∃ kind, Fault (ps ++ p :: more) kind := by
  cases p with
  | text cs => exact .inl ⟨us, h.append (.text .empty)⟩
  | value escape e => exact .inl ⟨us, h.append (.value .empty)⟩
  | opening call => exact .inl ⟨_, .opened h (.main .empty)⟩
  | otherwise =>
    cases h with
    | body body => exact .inr fun more => ⟨_, .elseOutsideBlock (.body body) trivial⟩
    | @opened ps inside us call last inverse before block =>
      cases inverse with
      | true => exact .inr fun more => ⟨_, .multipleElse (.opened before block) rfl trivial⟩
      | false =>
        rw [List.append_assoc, List.cons_append]
        exact .inl ⟨_, .opened before (block.otherwise rfl)⟩
  | otherwiseOpening next =>
    cases h with
    | body body => exact .inr fun more => ⟨_, .elseOutsideBlock (.body body) trivial⟩
    | @opened ps inside us call last inverse before block =>
      cases inverse with
      | true => exact .inr fun more => ⟨_, .multipleElse (.opened before block) rfl trivial⟩
      | false =>
        rw [List.append_assoc, List.cons_append]
        exact .inl ⟨_, .opened before (block.otherwiseOpening rfl next)⟩
  | closing name =>
    cases h with
    | body body => exact .inr fun more => ⟨_, .unbalancedClose (.body body)⟩
    | @opened ps inside us call last inverse before block =>
      by_cases hname : call.name = name
      · subst hname
        obtain ⟨ms, rs, body, items, rfl, main, rest⟩ := block.split
        have hblock := before.append (@Body.block call _ _ _ _ _ _ main rest .empty)
        refine .inl ⟨us, ?_⟩
        simpa only [List.append_assoc, List.cons_append, List.nil_append] using hblock
      · exact .inr fun more => ⟨_, .mismatchedClose (.opened before block) hname⟩

theorem body_or_fault (h : Prefix ps us) (more : List Piece) :
    (∃ items, Body (ps ++ more) items) ∨ ∃ kind, Fault (ps ++ more) kind := by
  induction more generalizing ps us with
  | nil =>
    rw [List.append_nil]
    cases h with
    | body body => exact .inl ⟨_, body⟩
    | opened before block => exact .inr ⟨_, .blockStillOpen (.opened before block)⟩
  | cons p more ih =>
    rcases h.next p with ⟨us', hnext⟩ | hfault
    · have hmore := ih hnext
      rwa [List.append_assoc] at hmore
    · exact .inr (hfault more)

end Prefix

namespace Draft

theorem addAll_nil (d : Draft) : d.addAll [] = .ok d := rfl

theorem addAll_cons {d d' : Draft} {p : Piece} (h : p.addTo d = .ok d') (ps : List Piece) :
    d.addAll (p :: ps) = d'.addAll ps := by
  unfold addAll
  rw [List.foldlM_cons, h]
  rfl

theorem addAll_append {d d' : Draft} {ps : List Piece} (h : d.addAll ps = .ok d')
    (qs : List Piece) : d.addAll (ps ++ qs) = d'.addAll qs := by
  unfold addAll at h ⊢
  rw [List.foldlM_append, h]
  rfl

theorem addTo_otherwise {items : List Item} {b : OpenBlock} {outer : List OpenBlock}
    (h : b.branch = .main) :
    Piece.addTo ⟨items, b :: outer⟩ .otherwise =
      .ok ⟨items, { b with branch := .inverse } :: outer⟩ := by
  obtain ⟨call, chained, branch, body, inverse⟩ := b
  cases h
  rfl

theorem addTo_otherwiseOpening {items : List Item} {b : OpenBlock} {outer : List OpenBlock}
    (h : b.branch = .main) (call : Call Expr) :
    Piece.addTo ⟨items, b :: outer⟩ (.otherwiseOpening call) =
      .ok ⟨items, { call, chained := true } :: { b with branch := .inverse } :: outer⟩ := by
  obtain ⟨call, chained, branch, body, inverse⟩ := b
  cases h
  rfl

theorem close_chained {items : List Item} {b next : OpenBlock} {outer : List OpenBlock}
    (h : b.chained = true) (name : String) :
    close name ⟨items, b :: next :: outer⟩ = close name ⟨items, next.push b.toItem :: outer⟩ := by
  have hclose : b.close name (next :: outer) = (next.push b.toItem).close name outer := by
    rw [OpenBlock.close.eq_2, if_pos h]
  unfold close
  dsimp only
  rw [hclose]

theorem close_opened {items : List Item} {b : OpenBlock} {outer : List OpenBlock}
    (h : b.chained = false) :
    close b.call.name ⟨items, b :: outer⟩ = .ok (push b.toItem ⟨items, outer⟩) := by
  have hne : ¬ b.chained = true := by simp [h]
  have hclose : b.close b.call.name outer = .ok (b.toItem, outer) := by
    cases outer with
    | nil => rw [OpenBlock.close.eq_1, if_neg hne, OpenBlock.closeNamed, if_pos rfl]
    | cons next outer => rw [OpenBlock.close.eq_2, if_neg hne, OpenBlock.closeNamed, if_pos rfl]
  unfold close
  dsimp only
  rw [hclose]
  rfl

end Draft

mutual

theorem Body.addAll {ps : List Piece} {items : List Item} (h : Body ps items) (d : Draft) :
    d.addAll ps = .ok (d.write items) := by
  match h with
  | .empty => rw [Draft.addAll_nil, d.write_nil]
  | .text later =>
    rw [Draft.addAll_cons rfl, later.addAll, Draft.write_write]
  | @Body.value escape e _ items later =>
    have hvalue := isText_valueItem escape e
    rw [Draft.addAll_cons rfl, later.addAll, d.push_eq_write hvalue, Draft.write_write,
      join_cons hvalue]
  | @Body.block call ms rs ps body inverse items main rest later =>
    obtain ⟨done, blocks⟩ := d
    have hopen : Draft.addAll ⟨done, blocks⟩ (.opening call :: (ms ++ (rs ++ .closing call.name :: ps))) =
        Draft.addAll ⟨done, { call, chained := false, body } :: blocks⟩
          (rs ++ .closing call.name :: ps) := by
      rw [Draft.addAll_cons rfl, Draft.addAll_append (main.addAll _)]
      rfl
    obtain ⟨branch, hrest⟩ := rest.addAll call.name done
      { call, chained := false, body } blocks ps rfl rfl
    have hclose : Draft.close call.name ⟨done, ⟨call, false, branch, body, inverse⟩ :: blocks⟩ =
        .ok (Draft.push (.block ⟨call, body, inverse, false⟩) ⟨done, blocks⟩) :=
      Draft.close_opened (b := ⟨call, false, branch, body, inverse⟩) rfl
    dsimp only at hrest
    rw [hopen, hrest, hclose]
    have hblock : (Item.block ⟨call, body, inverse, false⟩).isText = false := rfl
    change Draft.addAll (Draft.push (.block ⟨call, body, inverse, false⟩) ⟨done, blocks⟩) ps = _
    rw [later.addAll, Draft.push_eq_write _ hblock, Draft.write_write, join_cons hblock]

/-- The pieces from an else marker on, and the close tag, close the block with its inverse body. -/
theorem Rest.addAll {rs : List Piece} {inverse : List Item} (h : Rest rs inverse) (name : String)
    (done : List Item) (b : OpenBlock) (outer : List OpenBlock) (ps : List Piece)
    (hmain : b.branch = .main) (hinverse : b.inverse = []) :
    ∃ branch, Draft.addAll ⟨done, b :: outer⟩ (rs ++ .closing name :: ps) =
      Draft.close name ⟨done, { b with branch, inverse } :: outer⟩ >>= (Draft.addAll · ps) := by
  match h with
  | .none =>
    obtain ⟨call, chained, branch, body, inverse⟩ := b
    cases hinverse
    exact ⟨branch, rfl⟩
  | .otherwise body =>
    refine ⟨.inverse, ?_⟩
    rw [List.cons_append, Draft.addAll_cons (Draft.addTo_otherwise hmain),
      Draft.addAll_append (body.addAll _)]
    obtain ⟨call, chained, branch, main, inverse⟩ := b
    cases hinverse
    rfl
  | @Rest.chained call ms rs body inner main rest =>
    have hopen : Draft.addAll ⟨done, b :: outer⟩
        (.otherwiseOpening call :: (ms ++ rs) ++ .closing name :: ps) =
        Draft.addAll ⟨done, { call, chained := true, body } :: { b with branch := .inverse } :: outer⟩
          (rs ++ .closing name :: ps) := by
      rw [List.cons_append, List.append_assoc,
        Draft.addAll_cons (Draft.addTo_otherwiseOpening hmain call),
        Draft.addAll_append (main.addAll _)]
      rfl
    obtain ⟨branch, hrest⟩ := rest.addAll name done { call, chained := true, body }
      ({ b with branch := .inverse } :: outer) ps rfl rfl
    refine ⟨.inverse, ?_⟩
    rw [hopen, hrest, Draft.close_chained rfl]
    obtain ⟨call', chained, branch', main', inverse'⟩ := b
    cases hinverse
    rfl

end

/-- The blocks of a draft are those that wait for a close tag, each with its chain. -/
inductive Stands : List Unclosed → List OpenBlock → Prop
  | nil : Stands [] []
  | opened {b : OpenBlock} {us : List Unclosed} {outer : List OpenBlock} (h : b.chained = false)
    (outside : Stands us outer) :
    Stands (⟨b.call.name, b.call.name, b.branch = .inverse⟩ :: us) (b :: outer)
  | chained {b next : OpenBlock} {u : Unclosed} {us : List Unclosed} {outer : List OpenBlock}
    (h : b.chained = true) (extended : Stands (u :: us) (next :: outer)) :
    Stands (⟨u.name, b.call.name, b.branch = .inverse⟩ :: us) (b :: next :: outer)

namespace Stands
variable {u : Unclosed} {us : List Unclosed} {b : OpenBlock} {blocks outer : List OpenBlock}

/-- The innermost block counts only by its call, its chain and its branch. -/
theorem same (h : Stands us (b :: outer)) {c : OpenBlock} (hcall : c.call = b.call)
    (hchained : c.chained = b.chained) (hbranch : c.branch = b.branch) : Stands us (c :: outer) := by
  cases h with
  | opened h outside =>
    rw [← hcall, ← hbranch]
    exact .opened (hchained.trans h) outside
  | chained h extended =>
    rw [← hcall, ← hbranch]
    exact .chained (hchained.trans h) extended

theorem toInverse (h : Stands (u :: us) (b :: outer)) :
    Stands (⟨u.name, u.last, true⟩ :: us) ({ b with branch := .inverse } :: outer) := by
  cases h with
  | opened h outside => exact .opened (b := { b with branch := .inverse }) h outside
  | @chained _ next v _ outer h extended =>
    exact .chained (b := { b with branch := .inverse }) (u := v) h extended

theorem branch (h : Stands (u :: us) (b :: outer)) : u.inverse = decide (b.branch = .inverse) := by
  cases h <;> rfl

theorem last (h : Stands (u :: us) (b :: outer)) : b.call.name = u.last := by
  cases h <;> rfl

theorem write {d : Draft} (h : Stands us d.blocks) (items : List Item) :
    Stands us (d.write items).blocks := by
  obtain ⟨done, blocks⟩ := d
  cases blocks with
  | nil => exact h
  | cons b outer =>
    obtain ⟨call, chained, branch, body, inverse⟩ := b
    cases branch <;> exact h.same rfl rfl rfl

theorem mismatched (h : Stands (u :: us) (b :: outer)) {name : String} (hname : u.name ≠ name) :
    b.close name outer = .error (.mismatchedClose u.name name) := by
  induction outer generalizing b u with
  | nil =>
    cases h with
    | opened h =>
      rw [OpenBlock.close.eq_1, if_neg (by simp [h]), OpenBlock.closeNamed, if_neg hname]
  | cons next outer ih =>
    cases h with
    | opened h =>
      rw [OpenBlock.close.eq_2, if_neg (by simp [h]), OpenBlock.closeNamed, if_neg hname]
    | @chained _ _ v _ _ h extended =>
      rw [OpenBlock.close.eq_2, if_pos h]
      obtain ⟨call, chained, branch, body, inverse⟩ := next
      cases branch with
      | main => exact ih (u := v) (extended.same rfl rfl rfl) hname
      | inverse => exact ih (u := v) (extended.same rfl rfl rfl) hname

end Stands

theorem Unfinished.addAll {first last : Call Expr} {ps : List Piece} {inverse : Bool}
    (h : Unfinished first ps last inverse) (items : List Item) {b : OpenBlock}
    {outer : List OpenBlock} {u : Unclosed} {us : List Unclosed} (hb : b.branch = .main)
    (hu : u.last = first.name) (hstands : Stands (u :: us) (b :: outer)) :
    ∃ d, Draft.addAll ⟨items, b :: outer⟩ ps = .ok d ∧
      Stands (⟨u.name, last.name, inverse⟩ :: us) d.blocks := by
  induction h generalizing b outer u with
  | main body =>
    have hmain : u.inverse = false := by
      rw [hstands.branch, hb]
      rfl
    refine ⟨_, body.addAll _, ?_⟩
    rw [← hu, ← hmain]
    exact hstands.write (d := ⟨items, b :: outer⟩) _
  | @inverse first ms ps body inner main second =>
    have hwritten : Draft.write body ⟨items, b :: outer⟩ = ⟨items, b.write body :: outer⟩ := rfl
    have hbranch : (b.write body).branch = .main := by
      unfold OpenBlock.write
      rw [hb]
    have hextended := (hstands.write (d := ⟨items, b :: outer⟩) body).toInverse
    rw [Draft.addAll_append (main.addAll _), hwritten,
      Draft.addAll_cons (Draft.addTo_otherwise hbranch), ← hu]
    exact ⟨_, second.addAll _, hextended.write
      (d := ⟨items, { b.write body with branch := .inverse } :: outer⟩) inner⟩
  | @chained first call last ms ps body inverse main rest ih =>
    have hwritten : Draft.write body ⟨items, b :: outer⟩ = ⟨items, b.write body :: outer⟩ := rfl
    have hbranch : (b.write body).branch = .main := by
      unfold OpenBlock.write
      rw [hb]
    have hextended := (hstands.write (d := ⟨items, b :: outer⟩) body).toInverse
    have hopened := Stands.chained (b := { call, chained := true }) rfl hextended
    obtain ⟨d, hd, hdraft⟩ := ih rfl rfl hopened
    refine ⟨d, ?_, hdraft⟩
    rw [Draft.addAll_append (main.addAll _), hwritten,
      Draft.addAll_cons (Draft.addTo_otherwiseOpening hbranch call)]
    exact hd

theorem Prefix.addAll {ps : List Piece} {us : List Unclosed} (h : Prefix ps us) :
    ∃ d, Draft.addAll {} ps = .ok d ∧ Stands us d.blocks := by
  induction h with
  | body body => exact ⟨_, body.addAll _, .nil⟩
  | @opened ps inside us call last inverse before block ih =>
    obtain ⟨⟨items, blocks⟩, hd, hstands⟩ := ih
    have hopened := Stands.opened (b := { call, chained := false }) rfl hstands
    obtain ⟨d, hinside, hdraft⟩ := block.addAll items rfl rfl hopened
    refine ⟨d, ?_, hdraft⟩
    rw [Draft.addAll_append hd, Draft.addAll_cons rfl]
    exact hinside

theorem Body.total {ps : List Piece} {items : List Item} (h : Body ps items) :
    Draft.total {} ps = .ok items := by
  unfold Draft.total
  rw [h.addAll]
  rfl

theorem total_append {d : Draft} {ps : List Piece} (h : Draft.addAll {} ps = .ok d) {p : Piece}
    {kind : SyntaxErrorKind} (hp : p.addTo d = .error kind) (more : List Piece) :
    Draft.total {} (ps ++ p :: more) = .error kind := by
  unfold Draft.total
  rw [Draft.addAll_append h]
  unfold Draft.addAll
  rw [List.foldlM_cons, hp]
  rfl

theorem Piece.addTo_isElse {p : Piece} (h : p.IsElse) {d : Draft} {kind : SyntaxErrorKind}
    (hplace : otherwiseFault? d.place = some kind) : p.addTo d = .error kind := by
  cases p with
  | otherwise => rw [addTo, hplace]
  | otherwiseOpening call => rw [addTo, hplace]
  | _ => cases h

theorem Fault.total {ps : List Piece} {kind : SyntaxErrorKind} (h : Fault ps kind) :
    Draft.total {} ps = .error kind := by
  cases h with
  | elseOutsideBlock before isElse =>
    obtain ⟨⟨items, blocks⟩, hd, hstands⟩ := before.addAll
    cases hstands
    exact total_append hd (Piece.addTo_isElse isElse rfl) _
  | multipleElse before inverse isElse =>
    obtain ⟨⟨items, blocks⟩, hd, hstands⟩ := before.addAll
    cases blocks with
    | nil => cases hstands
    | cons b outer =>
      have hbranch := hstands.branch
      rw [inverse] at hbranch
      have hplace : Draft.place ⟨items, b :: outer⟩ = some .inverse :=
        congrArg some (of_decide_eq_true hbranch.symm)
      exact total_append hd (Piece.addTo_isElse isElse (by rw [hplace]; rfl)) _
  | unbalancedClose before =>
    obtain ⟨⟨items, blocks⟩, hd, hstands⟩ := before.addAll
    cases hstands
    exact total_append hd rfl _
  | mismatchedClose before other =>
    obtain ⟨⟨items, blocks⟩, hd, hstands⟩ := before.addAll
    cases blocks with
    | nil => cases hstands
    | cons b outer =>
      refine total_append hd ?_ _
      change (b.close _ outer >>= _) = _
      rw [hstands.mismatched other]
      rfl
  | blockStillOpen before =>
    obtain ⟨⟨items, blocks⟩, hd, hstands⟩ := before.addAll
    cases blocks with
    | nil => cases hstands
    | cons b outer =>
      unfold Draft.total
      rw [hd, ← hstands.last]
      rfl

/-- What shows in the end: a character of a text, or a value. -/
inductive Leaf
  | char (c : Char)
  | value (escape : Bool) (e : Expr)

mutual

def Item.leaves : Item → List Leaf
  | .text text => text.toList.map .char
  | .escaped e => [.value true e]
  | .unescaped e => [.value false e]
  | .block ⟨_, body, inverse, _⟩ => leaves body ++ leaves inverse
  | .inclusion _ => []

/-- The leaves of items in order, in each block those of the main body first. -/
def leaves : List Item → List Leaf
  | [] => []
  | item :: items => item.leaves ++ leaves items

end

def Piece.leaves : Piece → List Leaf
  | .text cs => cs.map .char
  | .value escape e => [.value escape e]
  | _ => []

theorem leaves_join (xs ys : List Item) : leaves (join xs ys) = leaves xs ++ leaves ys := by
  induction xs with
  | nil => rfl
  | cons x xs ih =>
    cases xs with
    | cons y xs => rw [join_cons_cons, leaves, ih, leaves.eq_2 x, List.append_assoc]
    | nil =>
      cases ys with
      | nil => rw [join_nil, leaves, List.append_nil]
      | cons y ys =>
        cases x <;> cases y <;> simp [join, leaves, Item.leaves]

theorem leaves_textItems (cs : List Char) : leaves (textItems cs) = cs.map .char := by
  unfold textItems
  split
  · next h =>
    subst h
    rfl
  · simp [leaves, Item.leaves]

theorem leaves_valueItem (escape : Bool) (e : Expr) :
    (valueItem escape e).leaves = [.value escape e] := by
  cases escape <;> rfl

mutual

theorem Body.leaves_eq {ps : List Piece} {items : List Item} (h : Body ps items) :
    leaves items = ps.flatMap Piece.leaves := by
  match h with
  | .empty => rfl
  | .text later =>
    rw [leaves_join, leaves_textItems, later.leaves_eq]
    rfl
  | .value later =>
    rw [leaves, leaves_valueItem, later.leaves_eq]
    rfl
  | .block main rest later =>
    rw [leaves, Item.leaves, main.leaves_eq, rest.leaves_eq, later.leaves_eq]
    simp [List.flatMap_cons, List.flatMap_append, Piece.leaves]

theorem Rest.leaves_eq {ps : List Piece} {items : List Item} (h : Rest ps items) :
    leaves items = ps.flatMap Piece.leaves := by
  match h with
  | .none => rfl
  | .otherwise body =>
    rw [body.leaves_eq]
    rfl
  | .chained main rest =>
    rw [leaves, Item.leaves, main.leaves_eq, rest.leaves_eq]
    simp [leaves, List.flatMap_cons, List.flatMap_append, Piece.leaves]

end

section
variable {helpers : Dict Helper} {ps : List Piece} {cs : List Char}

theorem compile_total (h : Written { helpers } ps cs) (waiting : Dict String) (shelf : Shelf) :
    ∃ left, (compile { helpers } waiting (String.ofList cs) shelf).1 =
      match Draft.total {} ps with
      | .ok items => .ok ⟨String.ofList cs, items, ⟨[]⟩⟩
      | .error kind => .error (Failure.error (String.ofList cs) ⟨left, kind⟩) := by
  have hnone : IsPlain [] := fun c hc => nomatch hc
  have hsettled : Draft.Settled {} := ⟨closed_nil, fun b hb => nomatch hb⟩
  obtain ⟨left, hread⟩ := read_written h rfl hsettled hnone 0
  refine ⟨left, ?_⟩
  have hsource : Outline.ofSource { helpers } (String.ofList cs) =
      Outline.ofExcept ((Draft.total {} ps).mapError fun kind => ⟨left, kind⟩) := by
    unfold Outline.ofSource
    rw [String.toList_ofList]
    exact hread
  unfold compile
  rw [hsource]
  cases Draft.total {} ps <;> rfl

/-- A written source compiles if and only if its pieces are a body, then to the items of that body,
in which the texts and values stand in source order; otherwise the error is that of the fault. -/
theorem compile_written (h : Written { helpers } ps cs) (waiting : Dict String) (shelf : Shelf) :
    (∀ t, (compile { helpers } waiting (String.ofList cs) shelf).1 = .ok t ↔
      ∃ items, Body ps items ∧ t = ⟨String.ofList cs, items, ⟨[]⟩⟩) ∧
    (∀ items, Body ps items → leaves items = ps.flatMap Piece.leaves) ∧
    ((¬ ∃ items, Body ps items) → ∃ position kind, Fault ps kind ∧
      (∀ other, Fault ps other → other = kind) ∧
      (compile { helpers } waiting (String.ofList cs) shelf).1 =
        .error (.syntaxError ⟨position, kind⟩)) := by
  obtain ⟨left, hcompile⟩ := compile_total h waiting shelf
  rw [hcompile]
  refine ⟨?_, fun items body => body.leaves_eq, ?_⟩
  · intro t
    constructor
    · intro hok
      rcases (Prefix.body .empty).body_or_fault ps with ⟨items, body⟩ | ⟨kind, fault⟩
      · rw [List.nil_append] at body
        rw [body.total] at hok
        cases hok
        exact ⟨items, body, rfl⟩
      · rw [List.nil_append] at fault
        rw [fault.total] at hok
        cases hok
    · rintro ⟨items, body, rfl⟩
      rw [body.total]
  · intro hnone
    rcases (Prefix.body .empty).body_or_fault ps with hbody | ⟨kind, fault⟩
    · exact absurd hbody hnone
    · rw [List.nil_append] at fault
      refine ⟨Position.at (String.ofList cs).toList ((String.ofList cs).length - left), kind,
        fault, ?_, ?_⟩
      · intro other hother
        have heq := hother.total
        rw [fault.total] at heq
        cases heq
        rfl
      · rw [fault.total]
        rfl

end

theorem readsArguments_nil (d : Dialect) : ReadsArguments d [] [] := by
  have hbrace := Cursor.at_brace ['\x7d']
  refine ⟨.inl rfl, _, hbrace, ?_⟩
  have hnone : (Cursor.brace ['\x7d']).arguments d = .ok (Cursor.here _ []) := by
    rw [Cursor.arguments, Cursor.eat_eq_none (by decide : TokenKind.brace ≠ .space)]
    rfl
  rw [hnone]
  exact Cursor.closes_brace hbrace []

def Path.ofName (name : List Char) (h : Token.IsName name) : Path :=
  ⟨name, [], h, fun _ hstep => nomatch hstep⟩

def Path.ifWord : Path := .ofName "if".toList rfl

theorem Path.call_ofName {d : Dialect} {name : List Char} (hname : Token.IsName name) {h : Helper}
    (hget : d.helpers.get? (Cursor.nameOf name) = some h) (args : List Argument) :
    (ofName name hname).call d args =
      ⟨String.ofList (ofName name hname).text, .helper h, args.filterMap Argument.positional?,
        args.filterMap Argument.named?⟩ := by
  have hhead : (ofName name hname).head d d.blockFallback = .helper h := by
    have hnames : (ofName name hname).names = [Cursor.nameOf name] := rfl
    unfold Path.head
    rw [hnames]
    dsimp only
    rw [hget]
    rfl
  unfold Path.call
  rw [hhead]

theorem compile_chain :
    let a := Path.ofName ['a'] rfl
    let b := Path.ofName ['b'] rfl
    let d : Dialect := { helpers := ⟨[]⟩ }
    let source := String.ofList
      ("\x7b\x7b#a\x7d\x7dt".toList ++ "\x7b\x7belse b\x7d\x7du".toList ++
        "\x7b\x7belse\x7d\x7dv".toList ++ "\x7b\x7b/a\x7d\x7d".toList)
    (compile d ⟨[]⟩ source { library := {}, compiled := ⟨[]⟩ }).1 =
      .ok ⟨source, [.block ⟨a.call d [], [.text "t"],
        [.block ⟨b.call d [], [.text "u"], [.text "v"], true⟩], false⟩], ⟨[]⟩⟩ := by
  intro a b d source
  have hargs := readsArguments_nil d
  have hplain (c : Char) (hc : c ≠ '\x7b' ∧ c ≠ '\\') : IsPlain [c] := by
    intro x hx
    rwa [List.mem_singleton.1 hx]
  have hblanks : ∀ c ∈ [' '], Text.isBlank c = true := List.all_eq_true.1 rfl
  have hwritten : Written d [.opening (a.call d []), .text ['t'], .otherwiseOpening (b.call d []),
      .text ['u'], .otherwise, .text ['v'], .closing (String.ofList a.text)] _ :=
    .tag (.opening a hargs) <| .text (hplain 't' (by decide)) <|
      .tag (.otherwiseOpening b (by decide) hblanks hargs) <|
      .text (hplain 'u' (by decide)) <| .tag .otherwise <| .text (hplain 'v' (by decide)) <|
      .tag (.closing a) .nil
  have hbody : Body [.opening (a.call d []), .text ['t'], .otherwiseOpening (b.call d []),
      .text ['u'], .otherwise, .text ['v'], .closing (String.ofList a.text)]
      [.block ⟨a.call d [], [.text "t"], [.block ⟨b.call d [], [.text "u"], [.text "v"], true⟩],
        false⟩] :=
    @Body.block _ [.text ['t']] _ _ _ _ _ (.text .empty)
      (@Rest.chained _ [.text ['u']] _ _ _ (.text .empty) (.otherwise (.text .empty))) .empty
  have hcompile := (compile_written hwritten ⟨[]⟩ { library := {}, compiled := ⟨[]⟩ }).1
  exact (hcompile _).2 ⟨_, hbody, rfl⟩

end Stencil
