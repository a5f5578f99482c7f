import StructuralModel.Proofs.Statement.Context
import StructuralModel.Proofs.Text.Depth
import StructuralModel.Proofs.Text.Place

/-!
# Tokens of a text

The tokens of a text *tile* it: their spans follow one another from its start to its end, and each
token is what stands in its span (`Token.Tiles`). Blocks are single blocks of balanced braces
(`Text.Braced`), and words have no characters that start other tokens.

A `{` outside of comments *lasts* if it is never closed: behind it more braces are open than in
front of it, up to the end of the text (`Context.Lasting`). A text without such a brace has tokens.
Braces that last may be nested, and then it is the outermost one that is at fault.

* `Token.tiles_ofText`: the tokens of a text tile it;
* `Context.Unclosed.prefix_of_lasting`: no brace lasts in front of the outermost one;
* `Token.ofText_outcome`: a text has tokens, or a brace lasts.
-/

namespace StructuralModel

open Text (byteSize StandsAt)

/-! ## Blocks -/

namespace Text

/-- One block in braces: they are balanced, and the first one is not closed before the end. -/
structure Braced (cs : List Char) : Prop where
  head : cs.head? = some '{'
  balanced : Balanced cs
  depth_ne_zero : ∀ front back, cs = front ++ back → front ≠ [] → back ≠ [] → depth 0 front ≠ 0

/-- What is read up to the brace that closes the first one is one block. -/
theorem braced_of_closing {block after : List Char}
    (h : closing 1 (block ++ after) = some (block, after)) : Braced ('{' :: block) := by
  obtain ⟨-, -, -, hmin⟩ := closing_eq_some_iff.1 h
  have hlevel : level? 1 block = some 0 := level?_of_closing Nat.one_pos h
  refine ⟨rfl, hlevel, fun front back hblock hfront hback hd => ?_⟩
  obtain ⟨c, front, rfl⟩ := List.exists_cons_of_ne_nil hfront
  rw [List.cons_append] at hblock
  obtain ⟨rfl, rfl⟩ := List.cons.inj hblock
  have hd : depth 1 front = 0 := hd
  have hne : front ≠ [] := by
    rintro rfl
    cases hd
  -- The block ends at the first place at depth zero, so nothing of it is behind.
  have hlen := hmin front (back ++ after) (List.append_assoc ..) hne hd
  have hpos := List.length_pos_iff.2 hback
  rw [List.length_append] at hlen
  omega

end Text

namespace Token

variable {t : Token} {tokens : List Token} {start : Nat} {cs text after : List Char} {kind : Kind}

theorem stop_span (t : Token) : t.span.stop = t.start + byteSize t.text :=
  Span.stop_ofBounds (Nat.le_add_right ..)

/-! ## Tiles -/

/-- Spans of tokens follow one another from byte `i` to byte `j`, without gap or overlap. -/
def Adjoin (i j : Nat) : List Token → Prop
  | [] => i = j
  | t :: tokens => t.span.start = i ∧ Adjoin t.span.stop j tokens

/-- A token is a stretch of a text that starts at byte `start` of the source. -/
structure CutFrom (start : Nat) (cs : List Char) (t : Token) : Prop where
  nonempty : t.span.start < t.span.stop
  /-- The characters of the token are those in its span. -/
  standsAt : StandsAt start cs t.text t.span.start
  stop_eq : t.span.stop = t.span.start + byteSize t.text
  braced : t.kind = .block → Text.Braced t.text
  word : t.kind = .word → ∀ c ∈ t.text, c ∉ [' ', '\t', '\r', '\n', '#', ';', '\x7b', '\x7d']

/-- Tokens are all of a text that starts at byte `start` of the source. -/
structure Tiles (start : Nat) (cs : List Char) (tokens : List Token) : Prop where
  adjoin : Adjoin start (start + byteSize cs) tokens
  cutFrom : ∀ t ∈ tokens, t.CutFrom start cs

/-- A stretch of the rest of a text is a stretch of the text. -/
theorem CutFrom.append_left (front : List Char) (h : t.CutFrom (start + byteSize front) cs) :
    t.CutFrom start (front ++ cs) :=
  { h with standsAt := h.standsAt.append_left front }

/-- The first token of a text is a stretch of it. -/
theorem Lexeme.cutFrom (h : Lexeme kind text after) (hne : text ≠ []) (start : Nat) :
    CutFrom start (text ++ after) ⟨kind, text, start⟩ where
  nonempty := by
    rw [stop_span]
    exact Nat.lt_add_of_pos_right (Nat.pos_of_ne_zero (mt Text.byteSize_eq_zero_iff.1 hne))
  standsAt := Text.standsAt_append start text after
  stop_eq := stop_span _
  braced hkind := by
    cases h with
    | block hclosing => exact Text.braced_of_closing hclosing
    | _ => cases hkind
  word hkind := by
    cases h with
    | word _ hword =>
      intro c hc
      have := isWordChar_iff.1 (hword c hc)
      simpa only [List.mem_cons, List.not_mem_nil, or_false, not_or] using this
    | _ => cases hkind

/-- The tokens of a text tile it. -/
theorem tiles_ofText (h : ofText start cs = .ok tokens) : Tiles start cs tokens := by
  -- By induction along the tokens: the rest of the text starts where the first one stops.
  fun_induction ofText start cs generalizing tokens with
  | case1 start =>
    cases h
    exact ⟨rfl, fun _ h => by cases h⟩
  | case2 => cases h
  | case3 start c rest kind text after hfirst ih =>
    obtain ⟨htext, hlexeme⟩ := lexeme_of_first? hfirst
    have hne : text ≠ [] := by
      rintro rfl
      have := length_lt_of_first? hfirst
      rw [htext] at this
      exact Nat.lt_irrefl _ this
    cases hrest : ofText (start + byteSize text) after with
    | error => rw [hrest] at h; cases h
    | ok tokens' =>
      rw [hrest] at h
      cases h
      obtain ⟨hadjoin, hcut⟩ := ih hrest
      rw [htext]
      refine ⟨⟨rfl, ?_⟩, List.forall_mem_cons.2 ⟨hlexeme.cutFrom hne start, fun t ht => ?_⟩⟩
      · rw [stop_span, Text.byteSize_append, ← Nat.add_assoc]
        exact hadjoin
      · exact (hcut t ht).append_left text

end Token

/-! ## Braces that last -/

namespace Context

variable {before after before' after' : List Char}

/-- The `{` between `before` and `after` is not in a comment, and is never closed: behind it there
    are always more open braces than in front of it. -/
structure Lasting (before after : List Char) : Prop where
  inComment : (behind before).inComment = false
  depth_lt : ∀ block rest, after = block ++ rest →
    (behind before).depth < (behind (before ++ '{' :: block)).depth

/-- The outermost brace that is never closed lasts. -/
theorem Unclosed.lasting (h : Unclosed before after) : Lasting before after where
  inComment := h.isTop.2
  depth_lt block rest hafter := by
    rw [h.isTop.1]
    exact Nat.pos_of_ne_zero (h.depth_ne_zero block rest hafter)

/-- Where a brace lasts, some brace is open at the end. -/
theorem Lasting.depth_ne_zero (h : Lasting before after) :
    (behind (before ++ '{' :: after)).depth ≠ 0 :=
  Nat.ne_zero_of_lt (h.depth_lt after [] (List.append_nil _).symm)

/-- No brace lasts in front of the outermost one. -/
theorem Unclosed.prefix_of_lasting (h : Unclosed before after) (h' : Lasting before' after')
    (heq : before ++ '{' :: after = before' ++ '{' :: after') : before <+: before' := by
  obtain ⟨mid, hbefore', -⟩ | ⟨mid, hbefore, hmid⟩ := List.append_eq_append_iff.1 heq
  · exact ⟨mid, hbefore'.symm⟩
  · cases mid with
    | nil => exact ⟨[], by rw [hbefore, List.append_nil, List.append_nil]⟩
    | cons c mid =>
      -- An earlier brace that lasts would be open in front of the outermost one.
      obtain ⟨rfl, hafter'⟩ := List.cons.inj hmid
      have hlt := h'.depth_lt mid ('{' :: after) hafter'
      rw [← hbefore, h.isTop.1] at hlt
      exact absurd hlt (Nat.not_lt_zero _)

end Context

/-- A text has tokens, and they tile it; or a brace in it lasts, and the outermost such brace is
    labelled. -/
theorem Token.ofText_outcome (start : Nat) (cs : List Char) :
    match ofText start cs with
    | .ok tokens => Tiles start cs tokens ∧
        ∀ before after, cs = before ++ '{' :: after → ¬Context.Lasting before after
    | .error f => ∃ before after, cs = before ++ '{' :: after ∧ Context.Lasting before after ∧
        (Context.behind before).depth = 0 ∧
        (∀ before' after', cs = before' ++ '{' :: after' → Context.Lasting before' after' →
          before <+: before') ∧
        ∃ message, f.diagnostic.labels = [{
          span := .ofBounds (start + byteSize before) (start + byteSize before + 1), message }] := by
  have hbraces := braces_ofText start cs
  cases htokens : ofText start cs with
  | ok tokens =>
    rw [htokens] at hbraces
    refine ⟨tiles_ofText htokens, ?_⟩
    rintro before after rfl hlasting
    exact hlasting.depth_ne_zero hbraces
  | error f =>
    rw [htokens] at hbraces
    obtain ⟨before, after, rfl, hunclosed, rfl⟩ := hbraces
    exact ⟨before, after, rfl, hunclosed.lasting, hunclosed.isTop.1,
      fun before' after' heq hlasting => hunclosed.prefix_of_lasting hlasting heq, _, rfl⟩

end StructuralModel
