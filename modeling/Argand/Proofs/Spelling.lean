import Argand.Proofs.Cut

/-!
Texts that are written as tokens.

A text with the right characters need not have the tokens that it was written as: `2` and `.5`
behind one another are the one number `2.5`.  `Separate` says that the tokens do not run into each
other, each being as long as it can be before those behind it.  Then the text has these tokens in
either mode, with the zeros that complete the signs, whatever blanks stand between and within them
(`tokenize_spelled`).  The columns are those of the text and are left open here.
-/

namespace Argand

/-- The characters of tokens, one token behind the other. -/
def spelled (tokens : List Token) : List Char := tokens.flatMap Token.text

/-- No token could have been longer. -/
def Separate : List Token → Prop
  | [] => True
  | t :: ts => (Piece.token t).Maximal (spelled ts) ∧ Separate ts

/-- The tokens with the zeros that complete the signs.  The flag tells whether a sign here begins a
group. -/
def completedFrom (beginsGroup : Bool) : List Token → List Token
  | [] => []
  | t :: ts =>
    (if beginsGroup && t.isSign then [.number ['0']] else []) ++
      t :: completedFrom (t = .opening) ts

theorem spelled_cons (t : Token) (ts : List Token) : spelled (t :: ts) = t.text ++ spelled ts :=
  List.flatMap_cons

theorem spelled_append (ts us : List Token) : spelled (ts ++ us) = spelled ts ++ spelled us :=
  List.flatMap_append

/-- Cells that spell separate tokens are cut into these. -/
theorem map_fst_cut {cells : List Cell} {ts : List Token} (hs : Separate ts)
    (h : cells.map Prod.fst = spelled ts) : (cut cells).map Prod.fst = ts.map Piece.token := by
  induction ts generalizing cells with
  | nil =>
    obtain rfl : cells = [] := List.map_eq_nil_iff.1 h
    rw [cut]
    rfl
  | cons t ts ih =>
    obtain ⟨hm, hs⟩ := hs
    rw [spelled_cons] at h
    have hne : t.text ≠ [] := Piece.text_ne_nil hm
    rcases cells with _ | ⟨⟨c, column⟩, rest⟩
    · exact absurd (List.append_eq_nil_iff.1 h.symm).1 hne
    · have hb : Piece.beginning c rest = (Piece.token t, t.text.length - 1) :=
        Piece.beginning_of_maximal hm h
      obtain ⟨d, more, ht⟩ := List.exists_cons_of_ne_nil hne
      have hdrop : (rest.drop (t.text.length - 1)).map Prod.fst = spelled ts := by
        rw [ht] at h ⊢
        have hr : rest.map Prod.fst = more ++ spelled ts := (List.cons.inj h).2
        rw [List.map_drop, hr, List.length_cons, Nat.add_sub_cancel, List.drop_left]
      rw [cut, hb]
      exact congrArg (Piece.token t :: ·) (ih hs hdrop)

theorem skippedOf_of_tokens {pieces : List (Piece × Nat)} {ts : List Token}
    (h : pieces.map Prod.fst = ts.map Piece.token) : skippedOf pieces = [] := by
  refine List.filterMap_eq_nil_iff.2 ?_
  rintro ⟨piece, column⟩ hm
  have hp : piece ∈ ts.map Piece.token := h ▸ List.mem_map.2 ⟨_, hm, rfl⟩
  obtain ⟨t, -, rfl⟩ := List.mem_map.1 hp
  rfl

theorem map_token_tokensFrom {pieces : List (Piece × Nat)} {ts : List Token}
    (h : pieces.map Prod.fst = ts.map Piece.token) (flag : Bool) :
    (tokensFrom flag pieces).map Placed.token = completedFrom flag ts := by
  induction ts generalizing pieces flag with
  | nil =>
    obtain rfl : pieces = [] := List.map_eq_nil_iff.1 h
    rfl
  | cons t ts ih =>
    rcases pieces with _ | ⟨⟨piece, column⟩, pieces⟩
    · cases h
    · obtain ⟨rfl, hr⟩ := List.cons.inj h
      rw [tokensFrom, List.map_append, List.map_cons, ih hr, completedFrom]
      by_cases hz : (flag && t.isSign) = true
      · rw [if_pos hz, if_pos hz]
        rfl
      · rw [if_neg hz, if_neg hz]
        rfl

/-- A text that spells separate tokens has them as its tokens, in either mode. -/
theorem tokenize_spelled {source : List Char} {ts : List Token} (hs : Separate ts)
    (h : Text.withoutBlanks source = spelled ts) (mode : Mode) :
    ∃ tokens, tokenize mode source = .ok tokens ∧
      tokens.map Placed.token = completedFrom true ts := by
  have hc : (cut (cells source)).map Prod.fst = ts.map Piece.token :=
    map_fst_cut hs ((map_fst_cells source).trans h)
  refine ⟨tokensFrom true (cut (cells source)), ?_, map_token_tokensFrom hc true⟩
  unfold tokenize
  dsimp only
  rw [skippedOf_of_tokens hc]
  cases mode <;> rfl

end Argand
