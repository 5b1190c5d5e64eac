import Barnamaj.Tree.Basic
import Mathlib.Data.List.Forall2

/-!
# Trees of corresponding tokens

Two trees are alike under a relation between tokens if they have the same form and their tokens
correspond one by one. Alike trees are equally high, and equal if tokens correspond to themselves
only.
-/

namespace Barnamaj

variable {R : Token → Token → Prop}

/-- Expressions of one form, with corresponding tokens. -/
inductive Expression.Alike (R : Token → Token → Prop) : Expression → Expression → Prop where
  | literal {t u : Token} (h : R t u) : Alike R (.literal t) (.literal u)
  | access {t u : Token} (h : R t u) : Alike R (.access t) (.access u)
  | unary {t u : Token} {e e' : Expression} (h : R t u) (he : Alike R e e') :
      Alike R (.unary t e) (.unary u e')
  | binary {t u : Token} {a a' b b' : Expression} (h : R t u) (ha : Alike R a a')
      (hb : Alike R b b') : Alike R (.binary t a b) (.binary u a' b')

/-- Printed items of one form, with corresponding tokens. -/
inductive PrintItem.Alike (R : Token → Token → Prop) : PrintItem → PrintItem → Prop where
  | literal {t u : Token} (h : R t u) : Alike R (.literal t) (.literal u)
  | access {t u : Token} (h : R t u) : Alike R (.access t) (.access u)

/-- Statements of one form, with corresponding tokens. -/
inductive Statement.Alike (R : Token → Token → Prop) : Statement → Statement → Prop where
  | assignment {t u : Token} {e e' : Expression} (h : R t u) (he : e.Alike R e') :
      Alike R (.assignment t e) (.assignment u e')
  | print {t u : Token} {is js : List PrintItem} (h : R t u)
      (hs : List.Forall₂ (PrintItem.Alike R) is js) : Alike R (.print t is) (.print u js)
  | read {t t' u u' : Token} (h : R t u) (ht : R t' u') : Alike R (.read t t') (.read u u')

/-- Programs of one name whose parts correspond. A program and its body start at tokens. -/
inductive Program.Alike (R : Token → Token → Prop) : Program → Program → Prop where
  | mk {k k' b b' : Token} {name : String} {ss ss' : List Statement} (hk : R k k') (hb : R b b')
      (hs : List.Forall₂ (Statement.Alike R) ss ss') :
      Alike R ⟨k.position, name, b.position, ss⟩ ⟨k'.position, name, b'.position, ss'⟩

lemma Expression.Alike.height_eq {e e' : Expression} (h : e.Alike R e') :
    e.height = e'.height := by
  induction h with
  | literal _ => rfl
  | access _ => rfl
  | unary _ _ ih => simp only [height, ih]
  | binary _ _ _ iha ihb => simp only [height, iha, ihb]

/-! ### Equal tokens -/

lemma Expression.Alike.eq {e e' : Expression} (h : e.Alike Eq e') : e = e' := by
  induction h with
  | literal h => rw [h]
  | access h => rw [h]
  | unary h _ ih => rw [h, ih]
  | binary h _ _ iha ihb => rw [h, iha, ihb]

lemma PrintItem.Alike.eq {i i' : PrintItem} (h : i.Alike Eq i') : i = i' := by
  cases h with
  | literal h => rw [h]
  | access h => rw [h]

lemma eq_of_forall₂ {α : Type} {S : α → α → Prop} {as bs : List α}
    (h : List.Forall₂ S as bs) (hS : ∀ a b, S a b → a = b) : as = bs :=
  List.forall₂_eq_eq_eq ▸ h.imp hS

lemma Statement.Alike.eq {s s' : Statement} (h : s.Alike Eq s') : s = s' := by
  cases h with
  | assignment h he => rw [h, he.eq]
  | print h hs => rw [h, eq_of_forall₂ hs fun _ _ => PrintItem.Alike.eq]
  | read h ht => rw [h, ht]

/-- Programs that are alike under equality are equal. -/
lemma Program.Alike.eq {p p' : Program} (h : p.Alike Eq p') : p = p' := by
  cases h with
  | mk hk hb hs => rw [hk, hb, eq_of_forall₂ hs fun _ _ => Statement.Alike.eq]

end Barnamaj
