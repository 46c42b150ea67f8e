import Mathlib.Algebra.GroupWithZero.Nat
import Mathlib.Data.List.Forall2

/-! Coders that keep a state of their own. If what is coded in one good state is decoded in
every other, any order of coding and decoding gives back what was coded. -/

namespace ImcGem5.Lib

universe u v

/-- A coder with its states, codes, texts and failures. -/
structure Codec (σ δ τ : Type u) (φ : Type v) where
  encode : σ → τ → Except φ (σ × δ)
  decode : σ → δ → Except φ (σ × τ)

/-- A text is coded, or what came out of some earlier coding is decoded. -/
inductive CodecOp (τ : Type u) where
  | encode (text : τ)
  | decode (which : Nat)

namespace Codec

variable {σ δ τ : Type u} {φ : Type v} (codec : Codec σ δ τ φ)

/-- The texts that are decoded in a run, after so many codes. There is nothing to decode for a
code that was not made. -/
def decoded : σ → List δ → List (CodecOp τ) → Except φ (List τ)
  | _, _, [] => .ok []
  | state, codes, .encode text :: ops => do
    let (state, code) ← codec.encode state text
    decoded state (codes ++ [code]) ops
  | state, codes, .decode which :: ops =>
    match codes[which]? with
    | none => decoded state codes ops
    | some code => do
      let (state, text) ← codec.decode state code
      let texts ← decoded state codes ops
      return text :: texts

end Codec

/-- The texts that were coded, in the order in which they are decoded. -/
def asked {τ : Type u} : List τ → List (CodecOp τ) → List τ
  | _, [] => []
  | texts, .encode text :: ops => asked (texts ++ [text]) ops
  | texts, .decode which :: ops => texts[which]?.toList ++ asked texts ops

namespace Codec

variable {σ δ τ : Type u} {φ : Type v} {codec : Codec σ δ τ φ} {good : σ → Prop} {sound : τ → Prop}

/-- A code that gives its text in every good state. -/
def Holds (codec : Codec σ δ τ φ) (good : σ → Prop) (code : δ) (text : τ) : Prop :=
  ∀ state, good state → ∃ next, codec.decode state code = .ok (next, text) ∧ good next

def Lossless (codec : Codec σ δ τ φ) (good : σ → Prop) (sound : τ → Prop) : Prop :=
  ∀ state, good state → ∀ text, sound text →
    ∃ next code, codec.encode state text = .ok (next, code) ∧ good next ∧ codec.Holds good code text

theorem Lossless.decoded_eq (lossless : codec.Lossless good sound) {state : σ} (start : good state) {codes : List δ} {texts : List τ}
    (held : List.Forall₂ (codec.Holds good) codes texts) (ops : List (CodecOp τ))
    (each : ∀ text, .encode text ∈ ops → sound text) : codec.decoded state codes ops = .ok (asked texts ops) := by
  induction ops generalizing state codes texts with
  | nil => rfl
  | cons op ops ih =>
    have others : ∀ text, .encode text ∈ ops → sound text := fun text member => each text (List.mem_cons_of_mem _ member)
    cases op with
    | encode text =>
      obtain ⟨next, code, coded, kept, holds⟩ := lossless state start text (each text List.mem_cons_self)
      have more : List.Forall₂ (codec.Holds good) (codes ++ [code]) (texts ++ [text]) :=
        List.rel_append held (.cons holds .nil)
      rw [decoded, coded]
      exact ih kept more others
    | decode which =>
      rw [decoded, asked]
      cases code : codes[which]? with
      | none =>
        have past : codes.length ≤ which := List.getElem?_eq_none_iff.mp code
        rw [held.length_eq] at past
        rw [List.getElem?_eq_none past]
        exact ih start held others
      | some found =>
        obtain ⟨inside, found⟩ := List.getElem?_eq_some_iff.mp code
        have both := held.get inside (held.length_eq ▸ inside)
        obtain ⟨next, decoded, kept⟩ := both state start
        simp only [List.get_eq_getElem, found] at decoded
        simp only [decoded, List.getElem?_eq_getElem (held.length_eq ▸ inside), Option.toList_some, List.singleton_append]
        change (do let texts ← codec.decoded next codes ops; return _ :: texts) = _
        rw [ih kept held others]
        rfl

end Codec

end ImcGem5.Lib
