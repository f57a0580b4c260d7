import Stencil.Proofs.Spots

set_option autoImplicit false

/-!
# Blocks at spots

A block is written as its tags with templates between them. At every spot it is read as one item, with
the items of these templates for its bodies.
-/
namespace Stencil

def Catalog.initial : Catalog := ⟨{ helpers := Builtin.registry }, ⟨[]⟩⟩

/-- A complete template that may stand between tags. -/
structure Snippet (c : Catalog) where
  source : List Char
  items : List Item
  compiles : c.compile (String.ofList source) = .ok ⟨String.ofList source, items, ⟨[]⟩⟩
  noTilde : '~' ∉ source
  ends : Text.Ends source

section
variable {c : Catalog}

def Snippet.ofText (c : Catalog) {cs : List Char} (hplain : IsPlain cs) (noTilde : '~' ∉ cs) :
    Snippet c where
  source := cs
  items := (Draft.pushText cs {}).items
  compiles := by
    unfold Catalog.compile Outline.ofSource
    rw [String.toList_ofList, read_none (plain_end hplain)]
    change Except.map _ (Outline.check _ _ (.ofExcept ((Draft.pushText cs {}).finish 0))) = _
    unfold Draft.pushText
    split <;> rfl
  noTilde := noTilde
  ends x hx := hplain x (List.mem_of_mem_getLast? hx)

def Snippet.empty (c : Catalog) : Snippet c := .ofText c (List.forall_mem_nil _) List.not_mem_nil

def Snippet.letter (c : Catalog) (x : Char) (hx : x.isAlpha = true) : Snippet c :=
  have hne {y : Char} (hy : y.isAlpha = false) : x ≠ y := fun h => by
    rw [h, hy] at hx
    cases hx
  have hplain : IsPlain [x] := fun y hy => by
    rw [List.mem_singleton.1 hy]
    exact ⟨hne rfl, hne rfl⟩
  .ofText c hplain fun h => hne rfl (List.mem_singleton.1 h).symm

theorem Snippet.read (s : Snippet c) (draft : Draft) {behind : List Char} (h : BeginsTag behind)
    (more : List Char) :
    c.read draft false (s.source ++ (behind ++ more)) =
      c.read (draft.pushAll s.items) false (behind ++ more) := by
  have hread : c.read {} false s.source = some s.items := by
    rw [← c.compile_toOption, s.compiles]
    rfl
  obtain ⟨inside, rfl, hopener⟩ := h
  exact Catalog.read_inside hread s.noTilde s.ends draft (hopener more)

theorem Reads.tagAt {place : Option Branch} {inside more : List Char} {t : Tag}
    (h : Reads c.dialect place inside t more) : TagAt c place inside (some t) false more :=
  .ordinary h.sigil (h.read _)

def Spot.inBlock {opening : List Char} {call : Call Expr}
    (h : Reads c.dialect none opening (.opening call) []) (behind : List Char) : Spot c where
  front := '\x7b' :: '\x7b' :: opening
  trims := false
  draft := Draft.openBlock call false {}
  isFront := by
    have hplain : Text.plain ('\x7b' :: '\x7b' :: opening) = ([], some opening) := rfl
    have hpushed : Draft.pushText (Text.trimIf false (Opener.read opening).trims []) {} = {} := by
      rw [h.trims]
      rfl
    exact .tag .start hplain hpushed h.tagAt rfl
  before := []
  text := []
  isText := rfl
  behind := behind

/-- Behind a tag without tildes, reading goes on from the draft that the tag leaves. -/
theorem Reads.goOn {draft draft' : Draft} {inside more : List Char} {t : Tag}
    (h : Reads c.dialect draft.place inside t more) (hadd : draft.addTag t = .ok draft') :
    c.read draft false ('\x7b' :: '\x7b' :: inside) = c.read draft' false more := by
  have hbare : Text.plain ('\x7b' :: '\x7b' :: inside) = ([], some inside) := rfl
  refine Catalog.read_tag hbare ?_ h.tagAt hadd
  rw [h.trims]
  rfl

namespace Draft
variable {items : List Item} {b : OpenBlock} {outer blocks : List OpenBlock}

theorem pushAll_main (h : b.branch = .main) (xs : List Item) :
    pushAll xs ⟨items, b :: outer⟩ = ⟨items, { b with body := b.body ++ xs } :: outer⟩ := by
  induction xs generalizing b with
  | nil => rw [List.append_nil]; rfl
  | cons x xs ih =>
    obtain ⟨call, chained, branch, body, inverse⟩ := b
    cases h
    rw [List.append_cons]
    exact ih rfl

theorem pushAll_inverse (h : b.branch = .inverse) (xs : List Item) :
    pushAll xs ⟨items, b :: outer⟩ = ⟨items, { b with inverse := b.inverse ++ xs } :: outer⟩ := by
  induction xs generalizing b with
  | nil => rw [List.append_nil]; rfl
  | cons x xs ih =>
    obtain ⟨call, chained, branch, body, inverse⟩ := b
    cases h
    rw [List.append_cons]
    exact ih rfl

/-- A block closes in the same way from both of its bodies. -/
theorem close_branch (name : String) (b : OpenBlock) (branch : Branch) (outer : List OpenBlock) :
    { b with branch }.close name outer = b.close name outer := by
  cases outer <;> rfl

end Draft

namespace Path

def closing (p : Path) : List Char := '\x7b' :: '\x7b' :: '/' :: (p.text ++ ['\x7d', '\x7d'])

def ending (p : Path) : Option (Snippet c) → List Char
  | none => p.closing
  | some last =>
    '\x7b' :: '\x7b' :: ("else".toList ++ '\x7d' :: '\x7d' :: (last.source ++ p.closing))

variable (p : Path) {items : List Item} {b : OpenBlock} {outer blocks : List OpenBlock} {item : Item}

theorem closing_begins : BeginsTag p.closing := ⟨_, rfl, fun _ => rfl⟩

theorem ending_begins (last : Option (Snippet c)) : BeginsTag (p.ending last) := by
  cases last with
  | none => exact p.closing_begins
  | some last => exact ⟨_, rfl, fun _ => congrArg Opener.trims (opener_else _)⟩

theorem read_closing (hclose : b.close (String.ofList p.text) outer = .ok (item, blocks))
    (more : List Char) :
    c.read ⟨items, b :: outer⟩ false (p.closing ++ more) =
      c.read (Draft.push item ⟨items, blocks⟩) false more := by
  obtain ⟨left, hreads⟩ := reads_closing p (d := c.dialect) (some b.branch) more
  have happend : p.closing ++ more =
      '\x7b' :: '\x7b' :: '/' :: (p.text ++ '\x7d' :: '\x7d' :: more) := by simp [closing]
  rw [happend]
  refine hreads.goOn ?_
  unfold Draft.addTag
  dsimp only
  rw [hclose]

theorem read_ending (hbranch : b.branch = .main) (hinverse : b.inverse = [])
    (last : Option (Snippet c))
    (hclose : { b with inverse := (last.map Snippet.items).getD [] }.close (String.ofList p.text)
      outer = .ok (item, blocks)) (more : List Char) :
    c.read ⟨items, b :: outer⟩ false (p.ending last ++ more) =
      c.read (Draft.push item ⟨items, blocks⟩) false more := by
  obtain ⟨call, chained, branch, body, inverse⟩ := b
  cases hbranch
  cases hinverse
  cases last with
  | none => exact p.read_closing hclose more
  | some last =>
    have happend : p.ending (some last) ++ more = '\x7b' :: '\x7b' :: ("else".toList ++
        '\x7d' :: '\x7d' :: (last.source ++ (p.closing ++ more))) := by simp [ending]
    rw [happend, (reads_otherwise c.dialect _).goOn rfl, last.read _ p.closing_begins]
    unfold Draft.toInverse
    rw [Draft.pushAll_inverse rfl, List.nil_append]
    exact p.read_closing ((Draft.close_branch _ _ _ _).trans hclose) more

end Path

/-- A block is read as its item if what is behind its main body is read as the rest of it. -/
theorem readsAs_block {opening behind : List Char} {call : Call Expr} {inverse : List Item}
    (hopening : ∀ place more, Reads c.dialect place (opening ++ more) (.opening call) more)
    (main : Snippet c) (hbehind : BeginsTag behind)
    (hread : ∀ items outer more,
      c.read ⟨items, { call, chained := false, body := main.items } :: outer⟩ false (behind ++ more) =
        c.read (Draft.push (.block ⟨call, main.items, inverse, false⟩) ⟨items, outer⟩) false more) :
    ReadsAs c ('\x7b' :: '\x7b' :: (opening ++ (main.source ++ behind)))
      (.block ⟨call, main.items, inverse, false⟩) := by
  refine ⟨⟨_, rfl, fun more => ?_⟩, fun draft more => ?_⟩
  · rw [List.append_assoc]
    exact (hopening none _).trims
  · have happend : '\x7b' :: '\x7b' :: (opening ++ (main.source ++ behind)) ++ more =
        '\x7b' :: '\x7b' :: (opening ++ (main.source ++ (behind ++ more))) := by simp
    rw [happend, (hopening draft.place _).goOn rfl, main.read _ hbehind]
    unfold Draft.openBlock
    rw [Draft.pushAll_main rfl]
    exact hread draft.items draft.blocks more

theorem readsAs_plain {opening : List Char} {call : Call Expr} (p : Path)
    (hopening : ∀ place more, Reads c.dialect place (opening ++ more) (.opening call) more)
    (hname : call.name = String.ofList p.text) (main : Snippet c) (last : Option (Snippet c)) :
    ReadsAs c ('\x7b' :: '\x7b' :: (opening ++ (main.source ++ p.ending last)))
      (.block ⟨call, main.items, (last.map Snippet.items).getD [], false⟩) := by
  refine readsAs_block hopening main (p.ending_begins last) fun items outer more => ?_
  refine p.read_ending rfl rfl last ?_ more
  have hclosed (b : OpenBlock) (hchained : b.chained = false) (hcall : b.call = call) :
      b.close (String.ofList p.text) outer = .ok (b.toItem, outer) := by
    unfold OpenBlock.close
    rw [hchained]
    cases outer <;> simp [OpenBlock.closeNamed, hcall, hname]
  exact hclosed _ rfl rfl

namespace Path
variable (p : Path) {cs : List Char} {args : List Argument} (main : Snippet c)
  (last : Option (Snippet c))

def block (p : Path) (cs : List Char) (main : Snippet c) (last : Option (Snippet c)) : List Char :=
  '\x7b' :: '\x7b' :: '#' :: (p.text ++ (cs ++ '\x7d' :: '\x7d' :: (main.source ++ p.ending last)))

def negatedBlock (p : Path) (main : Snippet c) (last : Option (Snippet c)) : List Char :=
  '\x7b' :: '\x7b' :: '^' :: (p.text ++ '\x7d' :: '\x7d' :: (main.source ++ p.ending last))

theorem readsAs_call (hallowed : (p.call c.dialect args).Allowed c.dialect)
    (h : ReadsArguments c.dialect cs args) :
    ReadsAs c (p.block cs main last)
      (.block ⟨p.call c.dialect args, main.items, (last.map Snippet.items).getD [], false⟩) := by
  have hblock : p.block cs main last = '\x7b' :: '\x7b' ::
      ('#' :: (p.text ++ (cs ++ ['\x7d', '\x7d'])) ++ (main.source ++ p.ending last)) := by
    simp [block]
  rw [hblock]
  refine readsAs_plain p (fun place more => ?_) rfl main last
  have hreads := reads_opening p place hallowed h more
  simpa using hreads

theorem readsAs_negated :
    ReadsAs c (p.negatedBlock main last)
      (.block ⟨p.negated c.dialect, main.items, (last.map Snippet.items).getD [], false⟩) := by
  have hblock : p.negatedBlock main last = '\x7b' :: '\x7b' ::
      ('^' :: (p.text ++ ['\x7d', '\x7d']) ++ (main.source ++ p.ending last)) := by
    simp [negatedBlock]
  rw [hblock]
  refine readsAs_plain p (fun place more => ?_) rfl main last
  have hreads := reads_negated (d := c.dialect) p place more
  simpa using hreads

end Path
end

end Stencil
