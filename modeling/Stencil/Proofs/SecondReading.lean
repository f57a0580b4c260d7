import Mathlib
import Stencil.Proofs.Rereading
import Stencil.Proofs.Tiling

set_option autoImplicit false

/-!
# The second reading of a head

A head that names no helper and has nothing behind it is read again from where it begins. Read as
names or as a reference, it comes to the same path, so this cannot fail (`Cursor.second_reading`).
-/
namespace Stencil
namespace Cursor

variable {c : Cursor} {dialect : Dialect} {fallback : Option Helper}

/-- Behind the head of a call the reading goes on right behind the text of the head. -/
theorem head_place {source : String} {p : source.Pos} (hc : c.At (Token.behind p))
    {b : c.Ahead Head} (h : c.head dialect fallback = .ok b) :
    ∃ q : source.Pos, q.offset = p.offset + c.upTo b.cursor ∧ b.cursor.At (Token.behind q) ∧
      Token.behind p = (c.upTo b.cursor).toList ++ Token.behind q := by
  have hreaches : c.Reaches b.cursor := (head_carries (alike_beyond c) dialect fallback b h).1
  have hat : b.cursor.At b.cursor.chars := hreaches.at_chars (hc.chars.symm ▸ hc)
  obtain ⟨text, htext⟩ := hc.chars ▸ hreaches.chars_suffix
  have hname : c.upTo b.cursor = String.ofList text := upTo_eq (htext ▸ hc) hat
  obtain ⟨q, hoffset, hq⟩ := Token.exists_pos htext
  refine ⟨q, ?_⟩
  rw [hname, hq, String.toList_ofList]
  exact ⟨hoffset, hat, htext.symm⟩

/-- Where a call has a head that is no helper and neither arguments nor a hash, the head is read again
from its place as the same reference. That ends right behind the text of the head, and it is what
the whole expression comes to. -/
theorem second_reading {source : String} {p : source.Pos} (hc : c.At (Token.behind p))
    {a : c.Ahead (Call Expr)} (h : c.call dialect dialect.callFallback = .ok a)
    (hhelper : ∀ helper, a.result.head ≠ .helper helper) (hargs : a.result.args = [])
    (hhash : a.result.hash = []) :
    start (Token.behind p) = .ok ⟨c, hc.lt⟩ ∧
      ∃ (r : Reference) (q : source.Pos) (e : Cursor),
        a.result.head = .value r dialect.callFallback ∧
        Gives c.reference? (some r) e ∧
        Gives (c.expression dialect) (.reference r (!dialect.noFunctionValues)) e ∧
        q.offset = p.offset + a.result.name ∧ e.At (Token.behind q) ∧
        Token.behind p = a.result.name.toList ++ Token.behind q := by
  obtain ⟨b, args, hle, hhead, -, rfl⟩ := exists_of_call h
  obtain ⟨again, r, hagain, hr, hcursor, hcallee⟩ := head_always dialect dialect.callFallback b hhead
  have hvalue : b.result = .value r dialect.callFallback :=
    hcallee.resolve_left fun ⟨helper, hb⟩ => hhelper helper hb
  have hreference : Gives c.reference? (some r) b.cursor := by
    obtain ⟨result, e, he⟩ := again
    cases hr
    cases hcursor
    exact ⟨he, hagain⟩
  obtain ⟨q, hoffset, hat, hparts⟩ := head_place hc hhead
  refine ⟨start_eq hc, r, q, b.cursor, hvalue, hreference, ?_, hoffset, hat, hparts⟩
  obtain ⟨hle', hreference⟩ := hreference
  rw [expression, h, ok_bind]
  dsimp only
  rw [if_pos (isBare_of_value hvalue hargs hhash), hreference]
  exact ⟨hle', rfl⟩

def outward : Cursor := ⟨⟨.dot, ['.']⟩, "./a \x7d\x7d".toList⟩

/-- The call passes the blank, and the second reading ends in front of it. -/
theorem second_reading_outward :
    let source := "../a \x7d\x7d"
    let d : Dialect := { helpers := ⟨[]⟩ }
    let call : Call Expr := ⟨"../a", .value ⟨false, 1, ["a"]⟩ none, [], []⟩
    Gives (outward.call d none) call ⟨⟨.brace, ['\x7d']⟩, ['\x7d']⟩ ∧
      ∃ (q : source.Pos) (e : Cursor), q.offset.byteIdx = 4 ∧ e.At (Token.behind q) ∧
        Token.behind q = " \x7d\x7d".toList ∧
        Gives (outward.expression d) (.reference ⟨false, 1, ["a"]⟩ true) e := by
  intro source d call
  have hcall : Gives (outward.call d none) call ⟨⟨.brace, ['\x7d']⟩, ['\x7d']⟩ :=
    ⟨by decide, by cbv⟩
  have hc : outward.At (Token.behind source.startPos) := by
    rw [Token.behind_startPos]
    unfold At
    cbv
  refine ⟨hcall, ?_⟩
  obtain ⟨hle, hcall⟩ := hcall
  obtain ⟨-, r, q, e, hvalue, -, hexpression, hoffset, hat, hparts⟩ :=
    second_reading hc hcall (fun _ => Head.noConfusion) rfl rfl
  cases hvalue
  have hsource : source.toList = "../a".toList ++ " \x7d\x7d".toList := by decide
  rw [Token.behind_startPos, hsource] at hparts
  exact ⟨q, e, congrArg String.Pos.Raw.byteIdx hoffset, hat,
    (List.append_cancel_left hparts).symm, hexpression⟩

end Cursor
end Stencil
