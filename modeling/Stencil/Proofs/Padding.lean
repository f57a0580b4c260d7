import Stencil.Proofs.Closings
import Stencil.Proofs.Layouts

set_option autoImplicit false

/-!
# Padding

White space that is put next to the inside of a tag, or of parentheses in it, leaves the template what
it is, but in front of the closing parenthesis of a reference alone in its parentheses.
-/
namespace Stencil

theorem RawClosing.Valid.written_padded {r : RawClosing} (h : r.Valid) {before after : List Char}
    (hbefore : ∀ x ∈ before, Text.isBlank x = true) (hafter : ∀ x ∈ after, Text.isBlank x = true) :
    RawEnd.Written r.name r.trimsBefore r.trimsAfter
      (RawClosing.mk r.trimsBefore before r.name after r.trimsAfter).text := by
  obtain ⟨trimsBefore, blanks, name, blanks', trimsAfter⟩ := r
  cases name with
  | cons c name =>
    have hvalid : Valid ⟨trimsBefore, before, c :: name, after, trimsAfter⟩ :=
      ⟨hbefore, hafter, h.name⟩
    exact hvalid.written
  | nil =>
    have hblanks : ∀ x ∈ before ++ after, Text.isBlank x = true := fun x hx =>
      (List.mem_append.1 hx).elim (hbefore x) (hafter x)
    have hvalid : Valid ⟨trimsBefore, before ++ after, [], [], trimsAfter⟩ :=
      ⟨hblanks, List.forall_mem_nil _, fun x hx => nomatch hx⟩
    have hwritten := hvalid.written
    simp only [text, RawEnd.fromName, List.append_assoc, List.nil_append] at hwritten ⊢
    exact hwritten

namespace TagText

/-- White space is put into the gaps of the tag, in front of the terminator of a comment, and into the
closing tag of a raw block. -/
inductive Padded (d : Dialect) : TagText → TagText → Prop
  | code {sigil : Sigil} {before after : Bool} {tokens tokens' : List Token}
    (h : Stencil.Padded d [] tokens tokens') :
    Padded d (.code sigil before tokens after) (.code sigil before tokens' after)
  | comment {long before : Bool} {text blanks : List Char}
    (hblanks : ∀ x ∈ blanks, Text.isBlank x = true) :
    Padded d (.comment long before text) (.comment long before (text ++ blanks))
  | raw {before after trimsBefore trimsAfter : Bool} {tokens tokens' : List Token}
    {body name blanks₁ blanks₂ blanks₃ blanks₄ : List Char} (h : Stencil.Padded d [] tokens tokens')
    (hblanks₃ : ∀ x ∈ blanks₃, Text.isBlank x = true)
    (hblanks₄ : ∀ x ∈ blanks₄, Text.isBlank x = true) :
    Padded d (.raw before tokens after body ⟨trimsBefore, blanks₁, name, blanks₂, trimsAfter⟩)
      (.raw before tokens' after body ⟨trimsBefore, blanks₃, name, blanks₄, trimsAfter⟩)

variable {d : Dialect} {t t' : TagText}

theorem Padded.variant (h : Padded d t t') (ht : t.Valid) :
    Variant d t t' ∧ t'.trimsBefore = t.trimsBefore ∧ t'.trimsAfter = t.trimsAfter := by
  cases h with
  | code h => exact ⟨.code h fun h => ⟨h, rfl⟩, rfl, rfl⟩
  | comment hblanks => exact ⟨.comment hblanks, rfl, rfl⟩
  | raw h hblanks₃ hblanks₄ =>
    cases ht with
    | raw _ hlexes hclosing hname hbody =>
      have hnamed := hlexes.named
      rw [← hname] at hnamed
      refine ⟨.raw h (fun h => ⟨h, rfl⟩) rfl rfl ?_, rfl, rfl⟩
      exact RawEnd.rawBody?_padded hnamed (hclosing.written_padded hblanks₃ hblanks₄) hbody

end TagText

namespace Layout

inductive Padded (d : Dialect) : Layout → Layout → Prop
  | last (run : List Char) : Padded d (.last run) (.last run)
  | tag (run : List Char) {t t' : TagText} {behind behind' : Layout} (ht : t.Padded d t')
    (h : Padded d behind behind') : Padded d (.tag run t behind) (.tag run t' behind')

variable {d : Dialect} {l l' : Layout}

theorem Padded.counterpart (h : Padded d l l') (hl : l.Valid) (trims : Bool) :
    Counterpart d trims trims l l' := by
  induction h generalizing trims with
  | last run =>
    cases hl with
    | last hrun =>
      have hplain : Text.plain run = ((Text.plain run).1, none) := Prod.ext rfl hrun
      exact .last hplain hplain rfl
  | @tag run t t' behind behind' ht h ih =>
    cases hl with
    | tag hrun hvalid hbehind =>
      obtain ⟨hvariant, hbefore, hafter⟩ := ht.variant hvalid
      have hplain : Text.plain (run ++ ['\x7b', '\x7b']) =
          ((Text.plain (run ++ ['\x7b', '\x7b'])).1, some []) := Prod.ext rfl hrun
      refine .tag hplain hplain (by rw [hbefore]) hvalid hvariant ?_
      rw [hafter]
      exact ih hbehind t.trimsAfter

end Layout

section
variable {d : Dialect} {waiting : Dict String} {source : String} {shelf shelf' : Shelf} {t : Template}

/-- White space in the gaps of a source that compiles makes no difference. -/
theorem compile_padded (hcompile : (compile d waiting source).run shelf = (.ok t, shelf')) :
    (∃ l : Layout, l.Valid ∧ l.source = source) ∧
      ∀ l l' : Layout, l.Valid → l.source = source → l.Padded d l' →
        (compile d waiting l'.source).run shelf = (.ok ⟨l'.source, t.items, t.links⟩, shelf') := by
  refine ⟨Layout.exists_of_compile hcompile, ?_⟩
  rintro l l' hl rfl hpadded
  exact (hpadded.counterpart hl false).compile hcompile

end

/-- A reference alone in its parentheses is read again, without the white space behind it. -/
example : Template.ofSource "\x7b\x7blookup a (k )\x7d\x7d" =
    .error (.syntaxError ⟨⟨1, 14⟩, .unexpectedToken " "⟩) := by
  cbv

def callInCall : Layout :=
  .tag [] (.code .escaped false [⟨.ident, ['f']⟩, ⟨.space, [' ']⟩, ⟨.leftParen, ['(']⟩,
    ⟨.ident, ['g']⟩, ⟨.space, [' ']⟩, ⟨.trueWord, "true".toList⟩, ⟨.rightParen, [')']⟩] false) (.last [])

def paddedCall : Layout :=
  .tag [] (.code .escaped false [⟨.space, ['\n']⟩, ⟨.ident, ['f']⟩, ⟨.space, [' ', ' ']⟩,
    ⟨.leftParen, ['(']⟩, ⟨.space, [' ']⟩, ⟨.ident, ['g']⟩, ⟨.space, [' ']⟩, ⟨.trueWord, "true".toList⟩,
    ⟨.space, ['\t']⟩, ⟨.rightParen, [')']⟩, ⟨.space, [' ']⟩] false) (.last [])

theorem valid_callInCall : callInCall.Valid := by
  refine .tag rfl (.code (.inl rfl) ⟨fun _ _ => by decide, fun _ => by decide, ?_, nofun⟩ ?_) (.last rfl)
  · rintro - c ⟨⟩
    decide
  · exact .cons rfl rfl (.cons rfl rfl (.cons rfl rfl (.cons rfl rfl (.cons rfl rfl (.cons rfl rfl
      (.cons rfl rfl .nil))))))

theorem white_of_blank {x : Char} (hx : Text.isBlank x = true) : Token.White ⟨.space, [x]⟩ :=
  ⟨rfl, List.forall_mem_singleton.2 hx, List.cons_ne_nil _ _⟩

theorem not_tight_word (d : Dialect) (text : List Char) (before : List Token) :
    ¬ Tight d (⟨.trueWord, text⟩ :: before) := by
  intro h
  generalize htrail : (⟨.trueWord, text⟩ : Token) :: before = trail at h
  cases h with
  | atSign ht =>
    obtain ⟨rfl, -⟩ := List.cons.inj htrail
    cases ht
  | @bare ts front hopens hbare =>
    cases hts : ts.reverse with
    | nil =>
      rw [hts, List.nil_append] at htrail
      subst htrail
      cases hopens with
      | paren hp => cases hp
      | space hs => cases hs
    | cons t us =>
      rw [hts] at htrail
      obtain ⟨rfl, -⟩ := List.cons.inj htrail
      have hmem := List.mem_reverse.1 (hts ▸ List.mem_cons_self)
      cases hbare.1 _ hmem

theorem padded_callInCall : callInCall.Padded { helpers := Builtin.registry } paddedCall := by
  have htwo : Token.White ⟨.space, [' ', ' ']⟩ := ⟨rfl, by simp [Text.isBlank], List.cons_ne_nil _ _⟩
  have hbehind {b : Token} {before : List Token} (hb : b.kind ≠ .space) :
      ∀ t ∈ (b :: before).head?, t.kind ≠ .space := by
    rintro t ⟨⟩
    exact hb
  refine .tag _ (.code ?_) (.last _)
  refine .gap (white_of_blank rfl) (by decide) (by simp) (.opener _) (.space rfl htwo ?_)
  refine .same (by decide) (.gap (white_of_blank rfl) (by decide) (hbehind (by decide)) (.paren rfl _) ?_)
  refine .space rfl (white_of_blank rfl) (.same (by decide) ?_)
  refine .gap (white_of_blank rfl) (by decide) (hbehind (by decide)) (.ended (.rightParen ?_ ?_))
    (.last (white_of_blank rfl) (hbehind (by decide)))
  · exact ⟨_, .tail _ (.tail _ (.tail _ (.head _))), rfl⟩
  · exact not_tight_word _ _ _

def callTemplate : Template :=
  let fallback := Dialect.callFallback { helpers := Builtin.registry }
  { source := callInCall.source
    items := [.escaped (.call ⟨"f", .value ⟨false, 0, ["f"]⟩ fallback,
      [.call ⟨"g", .value ⟨false, 0, ["g"]⟩ fallback, [.const (.bool true)], []⟩], []⟩)]
    links := ⟨[]⟩ }

theorem compile_callInCall :
    (compile { helpers := Builtin.registry } ⟨[]⟩ callInCall.source).run ⟨{}, ⟨[]⟩, ⟨[]⟩, []⟩ =
      (.ok callTemplate, ⟨{}, ⟨[]⟩, ⟨[]⟩, []⟩) := by
  cbv

theorem compile_padded_callInCall :
    callInCall.source = "\x7b\x7bf (g true)\x7d\x7d" ∧
      paddedCall.source = "\x7b\x7b\nf  ( g true\t) \x7d\x7d" ∧
      (compile { helpers := Builtin.registry } ⟨[]⟩ paddedCall.source).run ⟨{}, ⟨[]⟩, ⟨[]⟩, []⟩ =
        (.ok ⟨paddedCall.source, callTemplate.items, ⟨[]⟩⟩, ⟨{}, ⟨[]⟩, ⟨[]⟩, []⟩) :=
  ⟨rfl, rfl,
    (compile_padded compile_callInCall).2 callInCall paddedCall valid_callInCall rfl padded_callInCall⟩

end Stencil
