import Stencil.Proofs.Shelves

set_option autoImplicit false

/-!
# What readers yield

A template calls the helpers of its dialect and no others. Where functions are no values, no
reference in it asks for a call, and where only helpers are allowed, no head is left to its value.
-/
namespace Stencil

def Value.IsConstant : Value → Prop
  | .bool _ | .number _ | .string _ => True
  | _ => False

inductive Head.From (d : Dialect) (fallback : Option Helper) : Head → Prop
  | helper {name : String} {h : Helper} (registered : d.helpers.get? name = some h) :
    Head.From d fallback (.helper h)
  | value (r : Reference) : Head.From d fallback (.value r fallback)
  | negated (r : Reference) : Head.From d fallback (.negated r fallback)

def Head.IsValue : Head → Prop
  | .value _ _ => True
  | _ => False

inductive Expr.From (d : Dialect) : Expr → Prop
  | const {v : Value} (h : v.IsConstant) : Expr.From d (.const v)
  | reference (r : Reference) : Expr.From d (d.reference r)
  | call {call : Call Expr} (head : call.head.From d d.callFallback)
    (known : d.knownHelpersOnly = true → ¬ call.head.IsValue)
    (args : ∀ e ∈ call.args, Expr.From d e) (hash : ∀ entry ∈ call.hash, Expr.From d entry.2) :
    Expr.From d (.call call)

structure Call.From (d : Dialect) (fallback : Option Helper) (call : Call Expr) : Prop where
  head : call.head.From d fallback
  args : ∀ e ∈ call.args, e.From d
  hash : ∀ entry ∈ call.hash, entry.2.From d

/-- Where only helpers are allowed, the head is one, or a reference that is negated. -/
def Call.Known (d : Dialect) (call : Call Expr) : Prop :=
  d.knownHelpersOnly = true → ¬ call.head.IsValue

inductive Item.From (d : Dialect) : Item → Prop
  | text (text : String) : Item.From d (.text text)
  | escaped {e : Expr} (h : e.From d) : Item.From d (.escaped e)
  | unescaped {e : Expr} (h : e.From d) : Item.From d (.unescaped e)
  | block {b : Block Item} (call : b.call.From d d.blockFallback) (known : b.call.Known d)
    (body : ∀ item ∈ b.body, Item.From d item) (inverse : ∀ item ∈ b.inverse, Item.From d item) :
    Item.From d (.block b)
  | inclusion {i : Inclusion} (args : ∀ e ∈ i.args, e.From d)
    (hash : ∀ entry ∈ i.hash, entry.2.From d) : Item.From d (.inclusion i)

inductive Argument.From (d : Dialect) : Argument → Prop
  | positional {e : Expr} (h : e.From d) : Argument.From d (.positional e)
  | named {key : String} {e : Expr} (h : e.From d) : Argument.From d (.named key e)

theorem Token.value?_isConstant {t : Token} {v : Value} (h : t.value? = some v) : v.IsConstant := by
  unfold Token.value? at h
  split at h <;> first | (cases h; exact True.intro) | cases h

section
variable {d : Dialect} {args : List Argument}

theorem Argument.positional_from (h : ∀ arg ∈ args, arg.From d) :
    ∀ e ∈ args.filterMap Argument.positional?, e.From d := by
  intro e he
  obtain ⟨arg, harg, heq⟩ := List.mem_filterMap.1 he
  cases h arg harg with
  | positional he => cases heq; exact he
  | named => cases heq

theorem Argument.named_from (h : ∀ arg ∈ args, arg.From d) :
    ∀ entry ∈ args.filterMap Argument.named?, entry.2.From d := by
  intro entry hentry
  obtain ⟨arg, harg, heq⟩ := List.mem_filterMap.1 hentry
  cases h arg harg with
  | positional => cases heq
  | named he => cases heq; exact he

end

namespace Cursor
variable {d : Dialect} {fallback : Option Helper} {c : Cursor}

theorem head_from : Always (fun a => a.result.From d fallback) (c.head d fallback) := by
  unfold head
  refine .bind .trivial fun a _ => ?_
  obtain ⟨path, e, he⟩ := a
  cases path with
  | some path =>
    dsimp only
    split
    · next h hregistered =>
      split at hregistered
      · exact .ok (.helper hregistered)
      · cases hregistered
    · exact .ok (.value _)
  | none =>
    refine .bind .trivial fun a _ => ?_
    obtain ⟨r, f, hf⟩ := a
    cases r with
    | none => exact .error
    | some r => exact .ok (.value r)

/-- What passes the check has a head that is no value, if only helpers are allowed. -/
theorem check_known (call : Call Expr) : Always (fun _ => call.Known d) (call.check d c) := by
  unfold Call.check
  split
  · next h heq =>
    refine .ok (p := fun _ => call.Known d) fun _ hvalue => ?_
    rw [heq] at hvalue
    exact hvalue
  · split
    · exact Always.error (p := fun _ => call.Known d)
    · next hknown => exact .ok (p := fun _ => call.Known d) fun h => absurd h hknown

structure FromBelow (d : Dialect) (n : Nat) : Prop where
  call : ∀ (c : Cursor) (fallback : Option Helper), 3 * c.rest.length + 1 < n →
    Always (fun a => a.result.From d fallback) (c.call d fallback)
  expression : ∀ c : Cursor, 3 * c.rest.length + 2 < n →
    Always (fun a => a.result.From d) (c.expression d)
  operand : ∀ c : Cursor, 3 * c.rest.length < n →
    Always (fun a => ∀ e, a.result = some e → e.From d) (c.operand? d)
  argument : ∀ c : Cursor, 3 * c.rest.length + 1 < n →
    Always (fun a => ∀ arg, a.result = some arg → arg.From d) (c.argument? d)
  arguments : ∀ c : Cursor, 3 * c.rest.length < n →
    Always (fun a => ∀ arg ∈ a.result, arg.From d) (c.arguments d)

section
variable {n : Nat} (ih : FromBelow d n)
include ih

theorem call_from_below (hn : 3 * c.rest.length + 1 < n + 1) (fallback : Option Helper) :
    Always (fun a => a.result.From d fallback) (c.call d fallback) := by
  rw [call]
  refine .bind head_from fun a hhead => ?_
  obtain ⟨head, e, he⟩ := a
  refine .bind (ih.arguments e (by omega)) fun a hargs => ?_
  obtain ⟨args, f, hf⟩ := a
  exact .ok ⟨hhead, Argument.positional_from hargs, Argument.named_from hargs⟩

theorem expression_from_below (hn : 3 * c.rest.length + 2 < n + 1) :
    Always (fun a => a.result.From d) (c.expression d) := by
  rw [expression]
  refine .bind (ih.call c d.callFallback (by omega)) fun a hcall => ?_
  obtain ⟨call, e, he⟩ := a
  dsimp only
  split
  · refine .bind .trivial fun a _ => ?_
    obtain ⟨r, f, hf⟩ := a
    cases r with
    | none => exact .error
    | some r => exact .ok (.reference r)
  · exact .bind (check_known call) fun _ hknown =>
      .ok (.call hcall.head hknown hcall.args hcall.hash)

theorem operand?_from_below (hn : 3 * c.rest.length < n + 1) :
    Always (fun a => ∀ e, a.result = some e → e.From d) (c.operand? d) := by
  rw [operand?]
  refine .bind .trivial fun a _ => ?_
  obtain ⟨r, e, he⟩ := a
  cases r with
  | some r =>
    refine .ok fun e he => ?_
    cases he
    exact .reference r
  | none =>
    dsimp only
    split
    · next v hv =>
      refine .bind .trivial fun past _ => .ok fun e he => ?_
      cases he
      exact .const (Token.value?_isConstant hv)
    · refine .bind .trivial fun past _ => ?_
      cases past with
      | none => exact .ok nofun
      | some past =>
        obtain ⟨f, hf⟩ := past
        refine .bind .trivial fun a _ => ?_
        obtain ⟨-, g, hg⟩ := a
        refine .bind (ih.expression g (by omega)) fun a hinner => ?_
        obtain ⟨inner, i, hi⟩ := a
        refine .bind .trivial fun past _ => .ok fun e he => ?_
        cases he
        exact hinner

theorem argument?_from_below (hn : 3 * c.rest.length + 1 < n + 1) :
    Always (fun a => ∀ arg, a.result = some arg → arg.From d) (c.argument? d) := by
  rw [argument?]
  refine .bind .trivial fun a _ => ?_
  obtain ⟨path, e, he⟩ := a
  dsimp only
  split
  · refine .bind .trivial fun past _ => ?_
    cases past with
    | none =>
      refine .ok fun arg harg => ?_
      cases harg
      exact .positional (.reference _)
    | some past =>
      obtain ⟨f, hf⟩ := past
      refine .bind (ih.operand f (by omega)) fun a hvalue => ?_
      obtain ⟨value, g, hg⟩ := a
      cases value with
      | none => exact .error
      | some value =>
        refine .ok fun arg harg => ?_
        cases harg
        exact .named (hvalue value rfl)
  · refine .ok fun arg harg => ?_
    cases harg
    exact .positional (.reference _)
  · refine .bind (ih.operand e (by omega)) fun a hvalue => ?_
    refine .ok fun arg harg => ?_
    obtain ⟨value, heq, rfl⟩ := Option.map_eq_some_iff.1 harg
    exact .positional (hvalue value heq)

theorem arguments_from_below (hn : 3 * c.rest.length < n + 1) :
    Always (fun a => ∀ arg ∈ a.result, arg.From d) (c.arguments d) := by
  rw [arguments]
  refine .bind .trivial fun past _ => ?_
  cases past with
  | none => exact .ok (List.forall_mem_nil _)
  | some past =>
    obtain ⟨e, he⟩ := past
    refine .bind (ih.argument e (by omega)) fun a harg => ?_
    obtain ⟨arg, f, hf⟩ := a
    cases arg with
    | none => exact .ok (List.forall_mem_nil _)
    | some arg =>
      exact .bind (ih.arguments f (by omega)) fun a hargs =>
        .ok (List.forall_mem_cons.2 ⟨harg arg rfl, hargs⟩)

end

theorem fromBelow (d : Dialect) (n : Nat) : FromBelow d n := by
  induction n with
  | zero => constructor <;> (intros; omega)
  | succ n ih =>
    exact {
      call := fun _ fallback hn => call_from_below ih hn fallback
      expression := fun _ hn => expression_from_below ih hn
      operand := fun _ hn => operand?_from_below ih hn
      argument := fun _ hn => argument?_from_below ih hn
      arguments := fun _ hn => arguments_from_below ih hn }

end Cursor

inductive Tag.From (d : Dialect) : Tag → Prop
  | value {escape : Bool} {e : Expr} (h : e.From d) : Tag.From d (.value escape e)
  | opening {call : Call Expr} (h : call.From d d.blockFallback) (known : call.Known d) :
    Tag.From d (.opening call)
  | otherwise : Tag.From d .otherwise
  | otherwiseOpening {call : Call Expr} (h : call.From d d.blockFallback) (known : call.Known d) :
    Tag.From d (.otherwiseOpening call)
  | closing {name : String} {left : Nat} : Tag.From d (.closing name left)
  | raw {call : Call Expr} {body : List Char} (h : call.From d d.blockFallback)
    (known : call.Known d) : Tag.From d (.raw call body)
  | inclusion {i : Inclusion} (args : ∀ e ∈ i.args, e.From d)
    (hash : ∀ entry ∈ i.hash, entry.2.From d) : Tag.From d (.inclusion i)

namespace Cursor
variable {d : Dialect} {place : Option Branch} {c : Cursor}

theorem blockCall_from :
    Always (fun a => a.result.From d d.blockFallback ∧ a.result.Known d) (c.blockCall d) :=
  .bind ((fromBelow d _).call c d.blockFallback (Nat.lt_succ_self _)) fun a hcall =>
    .bind (check_known a.result) fun _ hknown => .ok ⟨hcall, hknown⟩

theorem otherwiseTag_from : Always (fun a => a.result.From d) (c.otherwiseTag place) := by
  unfold otherwiseTag
  split
  · exact .error
  · exact .error
  · exact .ok .otherwise

theorem otherwiseOpeningTag_from :
    Always (fun a => a.result.From d) (c.otherwiseOpeningTag d place) := by
  unfold otherwiseOpeningTag
  split
  · exact .error
  · exact .bind blockCall_from fun a h => .ok (.otherwiseOpening h.1 h.2)

theorem valueTag_from (escape : Bool) : Always (fun a => a.result.From d) (c.valueTag d escape) :=
  .map ((fromBelow d _).expression c (Nat.lt_succ_self _)) fun _ => .value

theorem escapedTag_from : Always (fun a => a.result.From d) (c.escapedTag d place) := by
  unfold escapedTag
  refine .bind .trivial fun word _ => ?_
  cases word with
  | none => exact valueTag_from true
  | some past =>
    dsimp only
    split
    · exact .bind otherwiseTag_from fun _ h => .ok h
    · refine .bind .trivial fun space _ => ?_
      split
      · exact .bind otherwiseOpeningTag_from fun _ h => .ok h
      · exact .bind otherwiseTag_from fun _ h => .ok h

theorem negatedTag_from : Always (fun a => a.result.From d) (c.negatedTag d place) := by
  unfold negatedTag
  split
  · exact otherwiseTag_from
  · refine .bind .trivial fun r _ => ?_
    obtain ⟨r, d, hd⟩ := r
    cases r with
    | none => exact .error
    | some r => exact .ok (.opening ⟨.negated r, nofun, nofun⟩ fun _ => id)

theorem tag_from (sigil : Sigil) : Always (fun a => a.result.From d) (c.tag d place sigil) := by
  cases sigil with
  | unescaped | triple => exact valueTag_from false
  | opening => exact .map blockCall_from fun _ h => .opening h.1 h.2
  | negated => exact negatedTag_from
  | closing => exact .bind .trivial fun _ _ => .ok .closing
  | _ => exact escapedTag_from

theorem inclusionTag_from (name : String) :
    Always (fun a => a.result.From d) (c.inclusionTag d name) :=
  .bind ((fromBelow d _).arguments c (Nat.lt_succ_self _)) fun _ h =>
    .ok (.inclusion (Argument.positional_from h) (Argument.named_from h))

theorem closed_from {extra : Nat} {tag : c.Ahead Tag} (h : tag.result.From d) :
    Always (fun a => a.result.1.From d) (closed extra tag) :=
  .bind .trivial fun _ _ => .ok h

end Cursor

variable {d : Dialect}

theorem TagRead.read_from (place : Option Branch) (left : Nat) (opener : Opener) :
    Always (fun r => ∀ tag, r.tag = some tag → tag.From d)
      (TagRead.read d place left opener) := by
  have hcomment (terminator : List Char) : Always (fun r => ∀ tag, r.tag = some tag → tag.From d)
      (comment left terminator opener.rest) := by
    unfold comment
    split
    · exact .error
    · refine .ok fun tag htag => ?_
      cases htag
  unfold TagRead.read
  split
  · unfold raw
    refine .bind .trivial fun c _ => ?_
    obtain ⟨c, hc⟩ := c
    refine .bind Cursor.blockCall_from fun call hcall => ?_
    obtain ⟨call, e, he⟩ := call
    refine .bind .trivial fun trims _ => ?_
    obtain ⟨trims, f, hf⟩ := trims
    dsimp only
    split
    · exact .error
    · refine .ok fun tag htag => ?_
      cases htag
      exact .raw hcall.1 hcall.2
  · exact hcomment _
  · exact hcomment _
  · refine .bind .trivial fun c _ => ?_
    obtain ⟨c, hc⟩ := c
    refine .bind (Cursor.tag_from _) fun tag htag => ?_
    refine .bind (Cursor.closed_from htag) fun a ha => .ok fun t ht => ?_
    cases ht
    exact ha

theorem Asked.read_from (cs : List Char) :
    Always (fun asked => Always (fun r => ∀ tag, r.tag = some tag → tag.From d) asked.tag)
      (Asked.read d cs) := by
  unfold Asked.read
  refine .bind .trivial fun c _ => ?_
  obtain ⟨c, hc⟩ := c
  refine .bind .trivial fun name _ => ?_
  obtain ⟨name, e, he⟩ := name
  refine .ok (.map (.bind (Cursor.inclusionTag_from name) fun tag => Cursor.closed_from)
    fun a ha tag htag => ?_)
  cases htag
  exact ha

structure OpenBlock.From (d : Dialect) (b : OpenBlock) : Prop where
  call : b.call.From d d.blockFallback
  known : b.call.Known d
  body : ∀ item ∈ b.body, item.From d
  inverse : ∀ item ∈ b.inverse, item.From d

namespace OpenBlock
variable {b : OpenBlock} {outer blocks : List OpenBlock} {item : Item}

theorem From.push (h : b.From d) (hitem : item.From d) : (b.push item).From d := by
  unfold OpenBlock.push
  split
  · exact ⟨h.call, h.known, List.forall_mem_append.2 ⟨h.body, List.forall_mem_singleton.2 hitem⟩,
      h.inverse⟩
  · exact ⟨h.call, h.known, h.body,
      List.forall_mem_append.2 ⟨h.inverse, List.forall_mem_singleton.2 hitem⟩⟩

theorem From.toItem (h : b.From d) : b.toItem.From d := .block h.call h.known h.body h.inverse

theorem closeNamed_from {name : String} (h : b.From d) (houter : ∀ b ∈ outer, b.From d)
    (hclose : b.closeNamed name outer = .ok (item, blocks)) :
    item.From d ∧ ∀ b ∈ blocks, b.From d := by
  unfold closeNamed at hclose
  split at hclose <;> cases hclose
  exact ⟨h.toItem, houter⟩

theorem close_from {name : String} (h : b.From d) (houter : ∀ b ∈ outer, b.From d)
    (hclose : b.close name outer = .ok (item, blocks)) :
    item.From d ∧ ∀ b ∈ blocks, b.From d := by
  induction outer generalizing b with
  | nil =>
    unfold OpenBlock.close at hclose
    split at hclose
    · cases hclose
    · exact closeNamed_from h houter hclose
  | cons next outer ih =>
    obtain ⟨hnext, houter'⟩ := List.forall_mem_cons.1 houter
    unfold OpenBlock.close at hclose
    split at hclose
    · exact ih (hnext.push h.toItem) houter' hclose
    · exact closeNamed_from h houter hclose

end OpenBlock

structure Draft.From (d : Dialect) (draft : Draft) : Prop where
  items : ∀ item ∈ draft.items, item.From d
  blocks : ∀ b ∈ draft.blocks, b.From d

namespace Draft.From
variable {draft draft' : Draft}

theorem push (h : draft.From d) {item : Item} (hitem : item.From d) : (draft.push item).From d := by
  unfold Draft.push
  split
  · exact ⟨List.forall_mem_append.2 ⟨h.items, List.forall_mem_singleton.2 hitem⟩, h.blocks⟩
  · next b outer hblocks =>
    have hopen := h.blocks
    rw [hblocks] at hopen
    obtain ⟨hb, houter⟩ := List.forall_mem_cons.1 hopen
    exact ⟨h.items, List.forall_mem_cons.2 ⟨hb.push hitem, houter⟩⟩

theorem pushText (h : draft.From d) (text : List Char) : (draft.pushText text).From d := by
  unfold Draft.pushText
  split
  · exact h
  · exact h.push (.text _)

theorem openBlock (h : draft.From d) {call : Call Expr} (hcall : call.From d d.blockFallback)
    (hknown : call.Known d) (chained : Bool) : (draft.openBlock call chained).From d :=
  ⟨h.items, List.forall_mem_cons.2 ⟨⟨hcall, hknown, nofun, nofun⟩, h.blocks⟩⟩

theorem toInverse (h : draft.From d) : draft.toInverse.From d := by
  unfold Draft.toInverse
  split
  · exact h
  · next b outer hblocks =>
    have hopen := h.blocks
    rw [hblocks] at hopen
    obtain ⟨hb, houter⟩ := List.forall_mem_cons.1 hopen
    exact ⟨h.items, List.forall_mem_cons.2 ⟨⟨hb.call, hb.known, hb.body, hb.inverse⟩, houter⟩⟩

theorem addTag (h : draft.From d) {tag : Tag} (htag : tag.From d)
    (hadd : draft.addTag tag = .ok draft') : draft'.From d := by
  cases htag with
  | @value escape e he => cases escape <;> cases hadd <;> exact h.push (by constructor; exact he)
  | opening hcall hknown => cases hadd; exact h.openBlock hcall hknown false
  | otherwise => cases hadd; exact h.toInverse
  | otherwiseOpening hcall hknown => cases hadd; exact h.toInverse.openBlock hcall hknown true
  | closing =>
    unfold Draft.addTag at hadd
    dsimp only at hadd
    split at hadd
    · cases hadd
    · next b outer hblocks =>
      have hopen := h.blocks
      rw [hblocks] at hopen
      obtain ⟨hb, houter⟩ := List.forall_mem_cons.1 hopen
      split at hadd
      · next item blocks hclose =>
        cases hadd
        obtain ⟨hitem, hblocks'⟩ := OpenBlock.close_from hb houter hclose
        have hdraft : Draft.From d { draft with blocks } := ⟨h.items, hblocks'⟩
        exact hdraft.push hitem
      · cases hadd
  | @raw call body hcall hknown =>
    cases hadd
    refine h.push (.block hcall hknown ?_ nofun)
    intro item hitem
    dsimp only at hitem
    split at hitem
    · cases hitem
    · cases List.mem_singleton.1 hitem
      exact .text _
  | inclusion hargs hhash => cases hadd; exact h.push (.inclusion hargs hhash)

theorem add (h : draft.From d) {tag : Option Tag} (htag : ∀ t, tag = some t → t.From d)
    (hadd : draft.add tag = .ok draft') : draft'.From d := by
  cases tag with
  | none => cases hadd; exact h
  | some tag => exact h.addTag (htag tag rfl) hadd

end Draft.From

namespace Outline

theorem ending_finish_from {draft : Draft} (h : draft.From d) (mark : Nat) :
    Always (fun items => ∀ item ∈ items, item.From d) (ofExcept (draft.finish mark)).ending := by
  unfold Draft.finish
  split
  · exact .ok h.items
  · exact .error

theorem read_from (draft : Draft) (trims : Bool) (mark : Nat) (cs : List Char) (h : draft.From d) :
    Always (fun items => ∀ item ∈ items, item.From d) (read d draft trims mark cs).ending := by
  induction hn : cs.length using Nat.strongRecOn generalizing draft trims mark cs with
  | ind n ih =>
    subst hn
    rw [read]
    split
    · exact ending_finish_from (h.pushText _) mark
    · next inside hplain =>
      dsimp only
      have hdraft := h.pushText (Text.trimIf trims (Opener.read inside).trims (Text.plain cs).1)
      have hlt := Text.length_lt_of_plain hplain
      have hopener := Opener.read_length inside
      split
      · split
        · exact .error
        · next asked hasked =>
          change Always _ (Outline.ending _)
          split
          · exact .error
          · next r hr =>
            split
            · exact .error
            · next draft' hadd =>
              have hle := r.le
              exact ih r.rest.length (by omega) draft' r.trims _ r.rest
                (hdraft.add (Asked.read_from _ asked hasked r hr) hadd) rfl
      · split
        · exact .error
        · next r hr =>
          split
          · exact .error
          · next draft' hadd =>
            have hle := r.le
            exact ih r.rest.length (by omega) draft' r.trims _ r.rest
              (hdraft.add (TagRead.read_from _ _ _ r hr) hadd) rfl

theorem ending_of_link {σ : Type} {outline : Outline} {source : String}
    {ask : String → StateM σ (Except TemplateError (Option Target))} {links : Dict Target}
    {t : Template} {s s' : σ} (h : outline.link source ask links s = (.ok t, s')) :
    outline.ending = .ok t.items := by
  induction outline generalizing links s with
  | finished items => cases h; rfl
  | failed f => cases h
  | asking name left next ih =>
    generalize hr : ask name s = r
    obtain ⟨answer, s''⟩ := r
    match answer with
    | .error e => rw [link_error hr] at h; cases h
    | .ok none => rw [link_missing hr] at h; cases h
    | .ok (some target) => rw [link_some hr] at h; exact ih h

end Outline

/-- A template that comes of its source, compiled in a dialect. -/
inductive Template.Compiled (d : Dialect) (t : Template) : Prop
  | compile {waiting : Dict String} {shelf shelf' : Shelf}
    (h : Stencil.compile d waiting t.source shelf = (.ok t, shelf')) : Template.Compiled d t
  | ofSource (hd : d = { helpers := Builtin.registry }) (h : Template.ofSource t.source = .ok t) :
    Template.Compiled d t

theorem Template.Compiled.from {t : Template} (h : t.Compiled d) : ∀ item ∈ t.items, item.From d := by
  have hread (d : Dialect) := Outline.read_from (d := d) {} false 0 t.source.toList ⟨nofun, nofun⟩
  cases h with
  | compile h => exact hread d t.items (Outline.ending_of_link h)
  | ofSource hd h =>
    subst hd
    have hlink : (Outline.ofSource { helpers := Builtin.registry } t.source).link t.source
        (fun _ => pure (.ok none)) ⟨[]⟩ () = (.ok t, ()) := Prod.ext h rfl
    exact hread _ t.items (Outline.ending_of_link hlink)

/-- What a dialect registers are the helpers that every registry starts with, or some of them. -/
def Dialect.BuiltinsOnly (d : Dialect) : Prop :=
  ∀ name h, d.helpers.get? name = some h → Builtin.registry.get? name = some h

end Stencil
