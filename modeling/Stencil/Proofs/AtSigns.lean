import Stencil.Proofs.Closings
import Stencil.Proofs.Layouts
import Stencil.Proofs.Signs

set_option autoImplicit false

/-!
# At signs

In a source that compiles an `@` in a tag has a reference behind it, or it was passed where there is
none: in front of another operand, or as the last argument of a call.
-/
namespace Stencil
namespace Cursor

/-- A reader of the inside of a tag leaves no `@` open but the last argument of a call. -/
def LeavesSigns {α : Type} (F : (c : Cursor) → Except Failure (c.Ahead α)) : Prop :=
  ∀ {trail : List Token} (c : Cursor), Clear trail → Runs trail c (fun _ us _ => Ended us) (F c)

theorem blockCall_runs (d : Dialect) : LeavesSigns fun c => c.blockCall d := by
  intro trail c h
  unfold blockCall
  refine ((signedBelow d _).call d.blockFallback h (Nat.lt_succ_self _)).bind ?_
  rintro ⟨call, e, he⟩ us - hended
  exact .check_bind call d e (.done hended)

theorem valueTag_runs (d : Dialect) (escape : Bool) : LeavesSigns fun c => c.valueTag d escape :=
  fun _ h => ((signedBelow d _).expression h (Nat.lt_succ_self _)).map fun _ _ _ => id

theorem otherwiseTag_runs (place : Option Branch) : LeavesSigns fun c => c.otherwiseTag place := by
  intro trail c h
  dsimp only
  unfold otherwiseTag
  split
  · exact .error
  · exact .error
  · exact .done (.clear h)

theorem otherwiseOpeningTag_runs (d : Dialect) (place : Option Branch) :
    LeavesSigns fun c => c.otherwiseOpeningTag d place := by
  intro trail c h
  dsimp only
  unfold otherwiseOpeningTag
  split
  · exact .error
  · exact (blockCall_runs d c h).bind fun call us _ hended => .done hended

theorem escapedTag_runs (d : Dialect) (place : Option Branch) :
    LeavesSigns fun c => c.escapedTag d place := by
  intro trail c h
  dsimp only
  unfold escapedTag
  refine Runs.eat_bind rfl (fun _ => valueTag_runs d true c h) ?_
  rintro ⟨e, he⟩ hword
  have hclear := h.cons (t := c.token) (by rw [hword]; decide)
  dsimp only
  split
  · exact (otherwiseTag_runs place e hclear).bind fun a us _ hended => .done hended
  · refine (skip_runs hclear rfl (by decide)).bind ?_
    rintro ⟨space, f, hf⟩ us - hclear'
    dsimp only
    split
    · exact (otherwiseOpeningTag_runs d place f hclear').bind fun a us _ hended => .done hended
    · exact (otherwiseTag_runs place f hclear').bind fun a us _ hended => .done hended

theorem negatedTag_runs (d : Dialect) (place : Option Branch) :
    LeavesSigns fun c => c.negatedTag d place := by
  intro trail c h
  dsimp only
  unfold negatedTag
  split
  · exact otherwiseTag_runs place c h
  · refine (reference?_runs h).bind ?_
    rintro ⟨r, e, he⟩ us - hpost
    cases r with
    | none => exact .error
    | some r => exact .done (.clear (hpost.2 rfl))

theorem closingTag_runs : LeavesSigns closingTag := by
  intro trail c h
  unfold closingTag
  refine (names?_runs (Z := fun us _ => us = trail) h.ready fun _ => rfl).bind ?_
  rintro ⟨path, e, he⟩ us - hpost
  cases path with
  | none => exact .done (.clear (hpost.1 rfl ▸ h))
  | some path => exact .done (.clear (hpost.2 rfl))

theorem tag_runs (d : Dialect) (place : Option Branch) (sigil : Sigil) :
    LeavesSigns fun c => c.tag d place sigil := by
  intro trail c h
  cases sigil with
  | unescaped | triple => exact valueTag_runs d false c h
  | opening => exact (blockCall_runs d c h).map fun _ _ _ => id
  | negated => exact negatedTag_runs d place c h
  | closing => exact closingTag_runs c h
  | _ => exact escapedTag_runs d place c h

theorem inclusionTag_runs (d : Dialect) (name : String) :
    LeavesSigns fun c => c.inclusionTag d name := by
  intro trail c h
  unfold inclusionTag
  exact ((signedBelow d _).arguments h (Nat.lt_succ_self _)).bind fun a us _ hended => .done hended

theorem inclusion_runs (d : Dialect) : LeavesSigns fun c => c.inclusion d := by
  intro trail c h
  have hname : Runs trail c (fun _ us _ => Clear us) c.inclusionName :=
    (names_runs h.ready).map fun _ _ _ => id
  exact hname.bind fun a us _ hclear =>
    (inclusionTag_runs d a.result a.cursor hclear).bind fun b us _ hended => .done hended

theorem enclosed_readOut {α : Type} {F : (c : Cursor) → Except Failure (c.Ahead α)} (hF : LeavesSigns F)
    {extra : Nat} {after : Bool} {rest : List Char} {ts : List Token}
    (hts : Token.Lexes (closerText extra after ++ rest) ts)
    {p : { c : Cursor // c.rest.length < (Token.texts ts ++ (closerText extra after ++ rest)).length }}
    (hp : enter (Token.texts ts ++ (closerText extra after ++ rest)) = .ok p)
    {a : p.1.Ahead (α × Bool)} (ha : enclosed extra (F p.1) = .ok a) : ReadOut ts.reverse := by
  have htail := endsTag_closerText extra after rest
  obtain ⟨x, hx, ha⟩ := bind_eq_ok.1 ha
  obtain ⟨trims, htrims, -⟩ := bind_eq_ok.1 ha
  obtain ⟨c, space, hc, hspace, hcursor⟩ := exists_of_enter hp
  obtain ⟨us, hfirst, hclear⟩ := skip_runs .nil rfl (by decide) space hspace
  rw [hcursor] at hfirst
  obtain ⟨ws, hsecond, hended⟩ := hF p.1 hclear x hx
  rw [← List.append_assoc, ← List.reverse_append, List.append_nil] at hended
  obtain ⟨behind, rfl, hlast⟩ := (hfirst.trans hsecond).stands htail ⟨hc, hts⟩
  obtain ⟨f, ⟨hreach, hclose⟩, -⟩ :=
    exists_beforeCloser (hlast.at_texts.chars.symm ▸ hlast.at_texts) htrims
  rcases hreach with rfl | ⟨hkind, hnext⟩
  · obtain rfl := hlast.eq_nil hclose
    rw [List.append_nil]
    exact .ended hended
  · cases behind with
    | nil =>
      have hcloser := hlast.isCloser_of_nil htail
      rw [hkind] at hcloser
      cases hcloser
    | cons s behind =>
      obtain rfl := (hlast.next hnext).eq_nil hclose
      rw [hlast.eq_of_cons] at hkind
      rw [List.reverse_append]
      exact .space hkind hended

end Cursor

namespace Token
variable {cs text rest : List Char} {t : Token}

theorem digit_of_mem_digits? (h : digits? cs = some (text, rest)) {x : Char} (hx : x ∈ text) :
    x.isDigit = true ∨ x = '.' := by
  unfold digits? at h
  split at h
  · next hwhole =>
    split at h
    · next hplaces =>
      split at h <;> cases h
      · rcases List.mem_append.1 hx with hx | hx
        · exact .inl (forall_of_run? hwhole x hx)
        · rcases List.mem_cons.1 hx with hx | hx
          · exact .inr hx
          · exact .inl (forall_of_run? hplaces x hx)
      · exact .inl (forall_of_run? hwhole x hx)
    · cases h
      exact .inl (forall_of_run? hwhole x hx)
  · next hwhole =>
    split at h <;> cases h
    exact .inl (forall_of_run? hwhole x hx)
  · cases h

theorem not_mem_number? (h : number? cs = some (text, rest)) : '@' ∉ text := by
  have hdigits {cs text rest : List Char} (h : digits? cs = some (text, rest)) : '@' ∉ text := by
    intro hat
    rcases digit_of_mem_digits? h hat with hdigit | hpoint
    · exact absurd hdigit (by decide)
    · exact absurd hpoint (by decide)
  unfold number? at h
  split at h
  · obtain ⟨⟨text', rest'⟩, h', he⟩ := Option.map_eq_some_iff.1 h
    cases he
    exact fun hmem => (List.mem_cons.1 hmem).elim (by decide) (hdigits h')
  · exact hdigits h

def IsEnclosed (t : Token) : Prop := ∃ c text, t.text = c :: text ∧ (c = '"' ∨ c = '\'' ∨ c = '[')

theorem isEnclosed_of_quotation? (h : quotation? cs = some (t.text, rest)) : t.IsEnclosed := by
  unfold quotation? at h
  split at h
  · obtain ⟨found, -, he⟩ := Option.map_eq_some_iff.1 h
    exact ⟨_, _, (Prod.mk.inj he).1.symm, .inl rfl⟩
  · obtain ⟨found, -, he⟩ := Option.map_eq_some_iff.1 h
    exact ⟨_, _, (Prod.mk.inj he).1.symm, .inr (.inl rfl)⟩
  · cases h

theorem kind_of_mem_atSign (h : read cs = .ok (t, rest)) (hat : '@' ∈ t.text) :
    t.kind = .atSign ∨ t.IsEnclosed := by
  obtain ⟨happend, hne⟩ := append_of_read h
  cases hfound : composite? cs with
  | none =>
    obtain ⟨c, text, htext⟩ := List.exists_cons_of_ne_nil hne
    rw [htext] at happend
    subst happend
    obtain ⟨hsymbol, hsingle, -⟩ := read_eq_symbol hfound h
    rw [hsingle] at hat
    obtain rfl := List.mem_singleton.1 hat
    exact .inl (Option.some.inj hsymbol).symm
  | some found =>
    cases (read_of_composite? hfound).symm.trans h
    unfold composite? at hfound
    rcases Option.or_eq_some_iff.1 hfound with hconst | ⟨-, hmore⟩
    · rcases Option.or_eq_some_iff.1 (of_tokenOf hconst) with hquoted | ⟨-, hnumber⟩
      · exact .inr (isEnclosed_of_quotation? hquoted)
      · exact absurd hat (not_mem_number? hnumber)
    · rcases Option.or_eq_some_iff.1 hmore with hname | ⟨-, hspace⟩
      · rcases Option.or_eq_some_iff.1 (of_tokenOf hname) with hrun | ⟨-, hbracket⟩
        · exact absurd (forall_of_run? hrun _ hat) (by decide)
        · obtain ⟨inner, htext, -, -⟩ := bracketed?_eq_some hbracket
          exact .inr ⟨_, _, htext, .inr (.inr rfl)⟩
      · exact absurd (forall_of_run? (of_tokenOf hspace) _ hat) (by decide)

/-- Each `@` among the tokens is in a string constant or a name in brackets, or it is answered. -/
structure SignsAnswered (ts : List Token) : Prop where
  kind : ∀ t ∈ ts, '@' ∈ t.text → t.kind = .atSign ∨ t.IsEnclosed
  answered : ∀ (before : List Token) (t : Token) (behind : List Token), ts = before ++ t :: behind →
    t.kind = .atSign → Answered before behind

theorem SignsAnswered.of_readOut {tail : List Char} {ts : List Token} (hts : Lexes tail ts)
    (h : ReadOut ts.reverse) : SignsAnswered ts where
  kind t ht hat := by
    obtain ⟨cs, rest, hread⟩ := hts.exists_read ht
    exact kind_of_mem_atSign hread hat
  answered _ _ _ heq ht := h.answered heq ht

end Token

section
open Token Cursor

def TagText.tokens : TagText → List Token
  | code _ _ tokens _ => tokens
  | comment _ _ _ => []
  | raw _ tokens _ _ _ => tokens

theorem TagText.Valid.signsAnswered {d : Dialect} {place : Option Branch} {left : Nat} {rest r : List Char}
    {names : List String} {tag : Option Tag} {a : Bool} {t : TagText} (ht : t.Valid)
    (h : ReadsTag d place left ⟨t.sigil, t.trimsBefore, t.inside ++ rest⟩ names tag a r) :
    SignsAnswered t.tokens := by
  cases ht with
  | @code sigil before after tokens hsigil hfits hlexes =>
    have hmore := hlexes.in_front (endsTag_closer _ _) (endsTag_closerText sigil.extraBraces after rest)
    unfold inside at h
    rw [List.append_assoc] at h
    refine .of_readOut hlexes ?_
    cases h with
    | ordinary hne hgives =>
      obtain ⟨p, x, hp, hx, -⟩ :=
        (TagRead.gives_ordinary (hsigil.resolve_right hne)).1 hgives
      exact enclosed_readOut (tag_runs d place sigil) hmore hp hx
    | inclusion heq hgives =>
      obtain rfl : sigil = .inclusion := heq
      obtain ⟨p, x, i, hp, hx, -⟩ := Asked.gives_iff.1 hgives
      exact enclosed_readOut (inclusion_runs d) hmore hp hx
  | comment => exact ⟨nofun, fun before _ _ heq => absurd heq.symm (by simp [tokens])⟩
  | @raw before after tokens body closing hfits hlexes hclosing hname hbody =>
    have hmore := hlexes.in_front (endsTag_closer _ _)
      (endsTag_closerText 2 after (body ++ closing.text ++ rest))
    unfold inside at h
    rw [List.append_assoc, List.append_assoc] at h
    refine .of_readOut hlexes ?_
    cases h with
    | ordinary hne hgives =>
      obtain ⟨p, x, _, _, hp, hx, -⟩ := TagRead.gives_raw.1 hgives
      exact enclosed_readOut (blockCall_runs d) hmore hp hx
    | inclusion heq => cases heq

namespace Layout

def tags : Layout → List TagText
  | last _ => []
  | tag _ t behind => t :: behind.tags

theorem signsAnswered {d : Dialect} {l : Layout} (hl : l.Valid) {draft : Draft} {trims : Bool}
    {mark : Nat} {found : List String × List Item}
    (h : (Outline.read d draft trims mark l.text).script = some found) :
    ∀ t ∈ l.tags, SignsAnswered t.tokens := by
  induction hl generalizing draft trims mark found with
  | last => exact nofun
  | @tag run t behind hrun ht hbehind ih =>
    have hplain : Text.plain (run ++ ['\x7b', '\x7b']) =
        ((Text.plain (run ++ ['\x7b', '\x7b'])).1, some []) := Prod.ext rfl hrun
    obtain ⟨pushed, names, tag, after, rest, draft', mark', found', -, htag, -, hrest, -⟩ :=
      Outline.script_tag (plain_text hplain t behind) h
    rw [ht.variant.read_text (d := d) ht behind.text] at htag
    obtain ⟨-, rfl, -⟩ := ht.variant.reads ht htag 0 []
    exact List.forall_mem_cons.2 ⟨ht.signsAnswered htag, ih hrest⟩

end Layout

/-- Where no names are read the cursor stays, and where no reference or operand is read it passes an
`@` if that is next, and no more. So in a source that compiles each `@` in a tag has a reference behind
it, or stands in front of another operand or at the end of a call. -/
theorem compile_atSigns (d : Dialect) :
    (∀ c : Cursor, (∀ a, c.names? = .ok a → a.result = none → a.cursor = c) ∧
      (∀ a, c.reference? = .ok a → a.result = none → c.PastSign a.cursor) ∧
      ∀ a, c.operand? d = .ok a → a.result = none →
        a.cursor.token.kind.yields = false ∧ c.PastSign a.cursor) ∧
    ∀ (waiting : Dict String) (source : String) (shelf shelf' : Shelf) (t : Template),
      (compile d waiting source).run shelf = (.ok t, shelf') →
        (∃ l : Layout, l.Valid ∧ l.source = source) ∧
          ∀ l : Layout, l.Valid → l.source = source → ∀ tag ∈ l.tags, SignsAnswered tag.tokens := by
  refine ⟨fun c => ⟨fun a h hnone => (names?_always a h hnone).1,
    fun a h hnone => pastSign_of_reference? h hnone,
    fun a h hnone => pastSign_of_operand? h hnone⟩, fun waiting source shelf shelf' t h =>
      ⟨Layout.exists_of_compile h, ?_⟩⟩
  rintro l hl rfl
  obtain ⟨found, hfound, -⟩ := Outline.link_script h
  unfold Outline.ofSource Layout.source at hfound
  rw [String.toList_ofList] at hfound
  exact Layout.signsAnswered hl hfound

def signedCall : Layout :=
  .tag [] (.code .escaped false [⟨.ident, "lookup".toList⟩, ⟨.space, [' ']⟩, ⟨.ident, ['a']⟩,
    ⟨.space, [' ']⟩, ⟨.atSign, ['@']⟩, ⟨.const, "'k'".toList⟩] false) (.last [])

theorem valid_signedCall : signedCall.Valid := by
  refine .tag rfl (.code (.inl rfl) ⟨fun _ _ => by decide, fun _ => by decide, ?_, nofun⟩ ?_) (.last rfl)
  · rintro - c ⟨⟩
    decide
  · exact .cons rfl rfl (.cons rfl rfl (.cons rfl rfl (.cons rfl rfl (.cons rfl rfl (.cons rfl rfl
      .nil)))))

def signedTemplate : Template :=
  { source := signedCall.source
    items := [.escaped (.call ⟨"lookup", .helper (.builtin .lookup),
      [.reference ⟨false, 0, ["a"]⟩ true, .const (.string "k")], []⟩)]
    links := ⟨[]⟩ }

/-- No reference is read at the `@`, which is passed, and the call is compiled without it. -/
theorem compile_atSigns_lookup :
    let d : Dialect := { helpers := Builtin.registry }
    let shelf : Shelf := ⟨{}, ⟨[]⟩, ⟨[]⟩, []⟩
    let c : Cursor := ⟨⟨.atSign, ['@']⟩, "'k'\x7d\x7d".toList⟩
    signedCall.source = "\x7b\x7blookup a @'k'\x7d\x7d" ∧
      (compile d ⟨[]⟩ signedCall.source).run shelf = (.ok signedTemplate, shelf) ∧
      (∃ a, c.reference? = .ok a ∧ a.result = none ∧ a.cursor ≠ c ∧ c.PastSign a.cursor) ∧
      Answered [⟨.ident, "lookup".toList⟩, ⟨.space, [' ']⟩, ⟨.ident, ['a']⟩, ⟨.space, [' ']⟩]
        [⟨.const, "'k'".toList⟩] := by
  intro d shelf c
  have hcompile : (compile d ⟨[]⟩ signedCall.source).run shelf = (.ok signedTemplate, shelf) := by cbv
  have hle : "\x7d\x7d".toList.length ≤ "'k'\x7d\x7d".toList.length := by decide
  have hreference : c.reference? =
      .ok ⟨none, ⟨⟨.const, "'k'".toList⟩, "\x7d\x7d".toList⟩, hle⟩ := by cbv
  obtain ⟨halternatives, hsources⟩ := compile_atSigns d
  refine ⟨rfl, hcompile, ⟨_, hreference, rfl, ?_, (halternatives c).2.1 _ hreference rfl⟩, ?_⟩
  · intro heq
    cases congrArg (fun e : Cursor => e.token.kind) heq
  · obtain ⟨-, hlayouts⟩ := hsources ⟨[]⟩ _ shelf shelf _ hcompile
    exact (hlayouts signedCall valid_signedCall rfl _ List.mem_cons_self).answered _ _ _ rfl rfl

end
end Stencil
