import Stencil.Proofs.RoundTrip
import Stencil.Proofs.Shelves

set_option autoImplicit false

/-!
# Written inclusions

A tag with nothing but the name of a partial asks for that partial and includes it.
-/
namespace Stencil

def inclusion (name : String) : Item := .inclusion ⟨name, [], []⟩

def including (name : String) : List Char := inBraces 2 ('>' :: ' ' :: bracketed name)

section
open Cursor
variable {d : Dialect} {name : String} {more : List Char}

theorem noSteps : ∀ step ∈ ([] : List (Char × List Char)),
    (step.1 = '.' ∨ step.1 = '/') ∧ Token.IsName step.2 := nofun

theorem inclusionName_gives (h : InBrackets name) {c : Cursor}
    (hc : c.At (bracketed name ++ '\x7d' :: more)) :
    Gives c.inclusionName name (brace more) := by
  have hkind : ¬ ((brace more).token.kind = .dot ∨ (brace more).token.kind = .slash) := by
    rintro (h | h) <;> cases h
  have hc' : c.At (pathText (bracketed name) [] ++ '\x7d' :: more) := by
    rw [pathText, List.flatMap_nil, List.append_nil]
    exact hc
  obtain ⟨hle, hnames⟩ := names?_gives (isName_bracketed h) noSteps endsName_brace (at_brace more)
    hkind hc'
  refine ⟨hle, ?_⟩
  unfold inclusionName names
  rw [hnames]
  have hjoin : String.join ((stepsOf "" (bracketed name) []).map fun step => step.1 ++ step.2) =
      name := by
    change String.join ["" ++ nameOf (bracketed name)] = name
    rw [nameOf_bracketed, String.join_cons, String.join_nil, String.append_empty,
      String.empty_append]
  change Except.ok (Ahead.mk (String.join _) _ _) = _
  simp only [hjoin]

theorem enter_space (h : InBrackets name) (more : List Char) :
    ∃ (c : Cursor) (hle : c.rest.length < (' ' :: (bracketed name ++ '\x7d' :: more)).length),
      enter (' ' :: (bracketed name ++ '\x7d' :: more)) = .ok ⟨c, hle⟩ ∧
        c.At (bracketed name ++ '\x7d' :: more) := by
  obtain ⟨c, hc, -⟩ := at_path (isName_bracketed h) noSteps endsName_brace more
  rw [pathText, List.flatMap_nil, List.append_nil] at hc
  have hspace : At ⟨⟨.space, [' ']⟩, bracketed name ++ '\x7d' :: more⟩
      (' ' :: (bracketed name ++ '\x7d' :: more)) := by
    have hblank : ∀ x ∈ [' '], Text.isBlank x = true := List.all_eq_true.1 rfl
    exact Token.read_space (List.cons_ne_nil _ _) hblank (by decide : Text.isBlank '[' = false)
      (name.toList ++ [']'] ++ '\x7d' :: more)
  have hskip : skip .space ⟨⟨.space, [' ']⟩, bracketed name ++ '\x7d' :: more⟩ =
      .ok ⟨true, c, Nat.le_of_lt hc.lt⟩ := skip_eq_true rfl hc
  refine ⟨c, Nat.lt_trans hc.lt (Nat.lt_succ_self _), ?_, hc⟩
  unfold enter
  rw [start_eq hspace, ok_bind]
  dsimp only
  rw [hskip]
  rfl

theorem asked_including (d : Dialect) (h : InBrackets name) (more : List Char) :
    ∃ left r, Asked.read d (' ' :: (bracketed name ++ '\x7d' :: '\x7d' :: more)) =
        .ok ⟨name, left, .ok r⟩ ∧
      r.tag = some (.inclusion ⟨name, [], []⟩) ∧ r.trims = false ∧ r.rest = more := by
  obtain ⟨c, hlt, henter, hc⟩ := enter_space h ('\x7d' :: more)
  obtain ⟨hle, hname⟩ := inclusionName_gives h hc
  have harguments : (brace ('\x7d' :: more)).arguments d = .ok (here _ []) := by
    rw [arguments, eat_eq_none (by decide : TokenKind.brace ≠ .space)]
    rfl
  obtain ⟨closer, hcloser, htilde, hrest⟩ := closer_brace more
  have hclosed : closed 0 (here (brace ('\x7d' :: more)) (Tag.inclusion ⟨name, [], []⟩)) =
      .ok ((here (brace ('\x7d' :: more)) (Tag.inclusion ⟨name, [], []⟩)).goOn
        (closer.map fun trims => (Tag.inclusion ⟨name, [], []⟩, trims))) := by
    unfold closed
    dsimp only [here]
    rw [hcloser]
    rfl
  have htag : (brace ('\x7d' :: more)).inclusionTag d name =
      .ok (here _ (.inclusion ⟨name, [], []⟩)) := by
    unfold inclusionTag
    rw [harguments]
    rfl
  have hread : Asked.read d (' ' :: (bracketed name ++ '\x7d' :: '\x7d' :: more)) =
      .ok ⟨name, c.left, TagRead.ofAhead (Nat.lt_of_le_of_lt hle hlt) <$>
        ((brace ('\x7d' :: more)).inclusionTag d name >>= closed 0)⟩ := by
    unfold Asked.read
    rw [henter, ok_bind]
    dsimp only
    rw [hname]
    rfl
  rw [htag, ok_bind, hclosed] at hread
  exact ⟨_, _, hread, rfl, htilde, hrest⟩

theorem read_asking {draft : Draft} {pending inside : List Char} (h : IsPlain pending)
    (hsigil : (Opener.read inside).sigil = .inclusion)
    (htrims : (Opener.read inside).trims = false) (mark : Nat)
    {asked : Asked (Opener.read inside).rest.length}
    (hasked : Asked.read d (Opener.read inside).rest = .ok asked) :
    Outline.read d draft false mark (pending ++ '\x7b' :: '\x7b' :: inside) =
      .asking asked.name asked.left (match asked.tag with
        | .error f => .failed f
        | .ok r =>
          match (draft.pushText pending).add r.tag with
          | .error f => .failed f
          | .ok draft => Outline.read d draft r.trims (r.mark.getD mark) r.rest) := by
  have hplain := plain_tag h inside
  rw [Outline.read]
  split
  · next hnone =>
    rw [hplain] at hnone
    cases hnone
  · next inside' hsome =>
    have hinside := hsome
    rw [hplain] at hinside
    cases hinside
    have hfront : (Text.plain (pending ++ '\x7b' :: '\x7b' :: inside)).1 = pending := by
      rw [hplain]
    have hnone : Text.trimIf false false pending = pending := rfl
    simp only [hfront, htrims, hnone, hsigil, hasked]
    cases asked.tag with
    | error f => rfl
    | ok r => cases hadd : (draft.pushText pending).add r.tag <;> simp only [hadd]

theorem read_including (d : Dialect) (h : InBrackets name) (draft : Draft) {pending : List Char}
    (hpending : IsPlain pending) (mark : Nat) (more : List Char) :
    ∃ left mark', Outline.read d draft false mark (pending ++ (including name ++ more)) =
      .asking name left
        (Outline.read d ((draft.pushText pending).push (inclusion name)) false mark' more) := by
  have htext : pending ++ (including name ++ more) =
      pending ++ '\x7b' :: '\x7b' :: '>' :: ' ' :: (bracketed name ++ '\x7d' :: '\x7d' :: more) := by
    simp [including, inBraces]
  obtain ⟨left, r, hasked, htag, htrims, hrest⟩ := asked_including d h more
  refine ⟨left, r.mark.getD mark, ?_⟩
  rw [htext, read_asking hpending rfl rfl mark hasked]
  have hadd : (draft.pushText pending).add r.tag =
      .ok ((draft.pushText pending).push (inclusion name)) := by
    rw [htag]
    rfl
  dsimp only
  rw [hadd]
  dsimp only
  rw [htrims, hrest]

theorem ofSource_including (d : Dialect) (h : InBrackets name) :
    ∃ left, Outline.ofSource d (String.ofList (including name)) =
      .asking name left (.finished [inclusion name]) := by
  have hnone : IsPlain [] := nofun
  obtain ⟨left, mark, hread⟩ := read_including d h {} hnone 0 []
  rw [List.nil_append, List.append_nil] at hread
  refine ⟨left, ?_⟩
  unfold Outline.ofSource
  rw [String.toList_ofList, hread, read_end hnone]
  rfl

end

theorem ofSource_plain (d : Dialect) {text : String} (h : IsPlain text.toList)
    (hne : text.toList ≠ []) : Outline.ofSource d text = .finished [.text text] := by
  unfold Outline.ofSource
  rw [read_end h]
  unfold Draft.pushText
  rw [if_neg hne, String.ofList_toList]
  rfl

section
variable {d : Dialect} {waiting : Dict String} {name other : String} {s s' : Shelf}
  {target : Target}

def includer (name : String) (target : Target) : Template :=
  ⟨String.ofList (including name), [inclusion name], ⟨[(name, target)]⟩⟩

theorem link_including {σ : Type} {s s' : σ}
    {ask : String → StateM σ (Except TemplateError (Option Target))} (h : InBrackets name)
    (hask : ask name s = (.ok (some target), s')) :
    (Outline.ofSource d (String.ofList (including name))).link (String.ofList (including name)) ask
      ⟨[]⟩ s = (.ok (includer name target), s') := by
  obtain ⟨left, houtline⟩ := ofSource_including d h
  rw [houtline, Outline.link_some hask]
  rfl

theorem compile_including (h : InBrackets name)
    (hname : resolve d waiting name s = (.ok (some target), s')) :
    compile d waiting (String.ofList (including name)) s = (.ok (includer name target), s') :=
  link_including h hname

variable (hprogress : s.inProgress.get? name = none) (hcompiled : s.compiled.get? name = none)
include hprogress hcompiled

theorem resolve_plain {text : String} (h : IsPlain text.toList) (hne : text.toList ≠ [])
    (hwaiting : waiting.get? name = some text) :
    resolve d waiting name s = (.ok (some (.compiled s.library.next)),
      (s.start name).stop name s.library.next (.ok ⟨text, [.text text], ⟨[]⟩⟩)) := by
  have hlink : (Outline.ofSource d text).link text
      (fun other => resolve d (waiting.erase name) other) ⟨[]⟩ (s.start name) =
        (.ok ⟨text, [.text text], ⟨[]⟩⟩, s.start name) := by
    rw [ofSource_plain d h hne]
    rfl
  exact resolve_waiting hprogress hcompiled hwaiting hlink

theorem resolve_including (h : InBrackets other)
    (hwaiting : waiting.get? name = some (String.ofList (including other)))
    (hother : resolve d (waiting.erase name) other (s.start name) = (.ok (some target), s')) :
    resolve d waiting name s = (.ok (some (.compiled s.library.next)),
      s'.stop name s.library.next (.ok (includer other target))) :=
  resolve_waiting hprogress hcompiled hwaiting (link_including h hother)

theorem compile_nested (hname : InBrackets name) (hother : InBrackets other)
    (hprogress' : (s.start name).inProgress.get? other = none)
    (hcompiled' : s.compiled.get? other = none) {text : String} (h : IsPlain text.toList)
    (hne : text.toList ≠ []) (hwaiting : waiting.get? name = some (String.ofList (including other)))
    (hwaiting' : (waiting.erase name).get? other = some text) :
    compile d waiting (String.ofList (including name)) s =
      (.ok (includer name (.compiled s.library.next)),
        (((s.start name).start other).stop other (s.library.next + 1)
          (.ok ⟨text, [.text text], ⟨[]⟩⟩)).stop name s.library.next
            (.ok (includer other (.compiled (s.library.next + 1))))) :=
  compile_including hname (resolve_including hprogress hcompiled hother hwaiting
    (resolve_plain hprogress' hcompiled' h hne hwaiting'))

end

theorem inBrackets_ab : InBrackets "a" ∧ InBrackets "b" :=
  ⟨⟨by decide, by decide⟩, by decide, by decide⟩

end Stencil
