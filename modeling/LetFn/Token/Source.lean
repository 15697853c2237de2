import LetFn.Token

/-! What tokens are taken from, one at a time. Behind its last token a source goes on with end
tokens for ever. -/

namespace LetFn

class TokenSource (σ : Type) where
  /-- Takes one token. -/
  next : σ → Token × σ
  /-- How many tokens can come before there is nothing left but the end. -/
  size : σ → Nat
  size_next (s : σ) : size (next s).2 ≤ size s - 1
  kind_next (s : σ) : size s = 0 → (next s).1.kind = .eof

/-- A finite list of tokens, and the offset of the end tokens behind it. -/
structure TokenList where
  tokens : List Token
  stop : Nat

instance : TokenSource TokenList where
  next s := (s.tokens.headD (.eof s.stop), { s with tokens := s.tokens.tail })
  size s := s.tokens.length
  size_next s := by simp
  kind_next s h := by simp [List.length_eq_zero_iff.1 h, Token.eof]

end LetFn
