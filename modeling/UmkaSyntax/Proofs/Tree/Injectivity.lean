import UmkaSyntax.Proofs.Tree.Nodes

namespace UmkaSyntax
open UmkaSyntax.Part

theorem fieldsOf_injective {labels others : List (Option FieldName)}
    (length : labels.length = others.length) (same : fieldsOf labels = fieldsOf others) :
    labels = others := by
  have places : ∀ (labels : List (Option FieldName)) (i : Nat) (word : FieldName),
      labels[i]? = some (some word) ↔
        ∃ field ∈ fieldsOf labels, field.name = word ∧ i ∈ field.children := by
    intro labels i word
    constructor
    · intro place
      exact ⟨⟨word, placesOf labels word⟩,
        ((fieldsOf_spec labels).2 _).mpr ⟨List.mem_of_getElem? place, rfl⟩, rfl, mem_placesOf.mpr place⟩
    · rintro ⟨field, mem, rfl, own⟩
      rw [(((fieldsOf_spec labels).2 field).mp mem).2] at own
      exact mem_placesOf.mp own
  refine List.ext_getElem length fun i here there => ?_
  have words : ∀ word, labels[i] = some word ↔ others[i] = some word := by
    intro word
    have both := (places labels i word).trans (same ▸ (places others i word).symm)
    simpa [here, there] using both
  exact Option.ext words

theorem production_of_splits {kind : NodeKind} {k : TokenKind} (splits : kind.splits k = true) :
    production kind = .nothing := by
  unfold NodeKind.splits at splits
  split at splits
  · simp only [Bool.or_eq_true, beq_iff_eq] at splits
    obtain (rfl | rfl) | rfl := splits <;> rfl
  · obtain rfl := beq_iff_eq.mp splits
    rfl
  · cases splits

theorem asKeyword_ne {t : Token} (isName : t.kind = .name) : State.asKeyword t ≠ t := by
  intro same
  have kind := congrArg Token.kind same
  simp [State.asKeyword, isName] at kind

def Part.Fitting (part : Part) : Prop := ∃ symbol : Symbol, symbol.Fits part.mended

namespace Part.Fitting

variable {label : Option FieldName} {t : Token} {kind : NodeKind}

theorem keyword_isName (fitting : (Part.keyword label t).Fitting) : t.kind = .name := by
  obtain ⟨symbol, fits⟩ := fitting
  cases symbol with
  | keyword k => exact fits.1
  | token | builtin | literal | node | raw => exact fits.elim

theorem literal_splits (fitting : (Part.literal label kind t).Fitting) : kind.splits t.kind = true := by
  obtain ⟨symbol, fits⟩ := fitting
  exact fits.splits

end Part.Fitting

theorem Form.Sentence.fitting {form : Form} {parts : List Part} {next : TokenKind}
    (sentence : form.Sentence False parts next) : ∀ part ∈ parts, part.Fitting := by
  intro part mem
  obtain ⟨place, -, -, fits⟩ := sentence.placed (b := true) (fun _ => rfl) part mem
  exact ⟨_, fits⟩

theorem literal_toChild_ne {own label : Option FieldName} {kind other : NodeKind} {t : Token}
    {whole : Bool} {parts : List Part} {depth : Nat} {next : TokenKind}
    (fitting : (Part.literal own kind t).Fitting)
    (licensed : Licensed (Shape False) depth (.node label other whole parts) next) :
    (Part.literal own kind t).toChild ≠ (Part.node label other whole parts).toChild := by
  intro same
  obtain rfl : kind = other := congrArg Node.kind (Child.node.inj same)
  obtain ⟨⟨-, ⟨-, sentence⟩ | ⟨never, -⟩⟩, -⟩ := licensed
  · rw [production_of_splits fitting.literal_splits] at sentence
    exact sentence
  · exact never

mutual

theorem Part.Licensed.eq_of_toChild : ∀ {p q : Part} {depth : Nat} {next next' : TokenKind}
    {xs ys : List Token}, Licensed (Shape False) depth p next → Licensed (Shape False) depth q next' →
      p.Fitting → q.Fitting → p.label = q.label → p.toChild = q.toChild →
        p.tokens ++ xs = q.tokens ++ ys → p = q ∧ xs = ys
  | .token own t, q, _, _, _, _, _, _, _, _, fits, label, child, tokens => by
      cases q with
      | token other u =>
          obtain rfl : own = other := label
          obtain ⟨rfl, rest⟩ := List.cons.inj tokens
          exact ⟨rfl, rest⟩
      | keyword other u =>
          obtain ⟨rfl, -⟩ := List.cons.inj tokens
          exact absurd (Child.token.inj child).symm (asKeyword_ne fits.keyword_isName)
      | literal | node => cases child
  | .keyword own t, q, _, _, _, _, _, _, _, fits, _, label, child, tokens => by
      cases q with
      | token other u =>
          obtain ⟨rfl, -⟩ := List.cons.inj tokens
          exact absurd (Child.token.inj child) (asKeyword_ne fits.keyword_isName)
      | keyword other u =>
          obtain rfl : own = other := label
          obtain ⟨rfl, rest⟩ := List.cons.inj tokens
          exact ⟨rfl, rest⟩
      | literal | node => cases child
  | .literal own kind t, q, _, _, _, _, _, _, licensed, fits, _, label, child, tokens => by
      cases q with
      | token | keyword => cases child
      | literal other kind' u =>
          obtain rfl : own = other := label
          obtain rfl : kind = kind' := congrArg Node.kind (Child.node.inj child)
          obtain ⟨rfl, rest⟩ := List.cons.inj tokens
          exact ⟨rfl, rest⟩
      | node => exact absurd child (literal_toChild_ne fits licensed)
  | .node own kind whole parts, q, _, _, _, _, _, licensed, licensed', _, fits, label, child, tokens => by
      cases q with
      | token | keyword => cases child
      | literal => exact absurd child.symm (literal_toChild_ne fits licensed)
      | node other kind' whole' parts' =>
          obtain rfl : own = other := label
          obtain rfl : kind = kind' := congrArg Node.kind (Child.node.inj child)
          have children : toChildren parts = toChildren parts' :=
            congrArg Node.children (Child.node.inj child)
          have length : parts.length = parts'.length := by
            simpa using congrArg List.length children
          have labels : parts.map Part.label = parts'.map Part.label :=
            fieldsOf_injective (by simpa using length) (congrArg Node.fields (Child.node.inj child))
          obtain ⟨⟨-, ⟨rfl, sentence⟩ | ⟨never, -⟩⟩, inner⟩ := licensed
          · obtain ⟨⟨-, ⟨rfl, sentence'⟩ | ⟨never, -⟩⟩, inner'⟩ := licensed'
            · obtain ⟨rfl, rest⟩ := Part.LicensedAll.eq_of_toChildren inner inner'
                sentence.fitting sentence'.fitting labels children tokens
              exact ⟨rfl, rest⟩
            · exact never.elim
          · exact never.elim

theorem Part.LicensedAll.eq_of_toChildren : ∀ {ps qs : List Part} {depth : Nat}
    {next next' : TokenKind} {xs ys : List Token}, LicensedAll (Shape False) depth ps next →
      LicensedAll (Shape False) depth qs next' → (∀ part ∈ ps, part.Fitting) →
      (∀ part ∈ qs, part.Fitting) → ps.map Part.label = qs.map Part.label →
        toChildren ps = toChildren qs → tokensOf ps ++ xs = tokensOf qs ++ ys → ps = qs ∧ xs = ys
  | [], qs, _, _, _, _, _, _, _, _, _, _, children, tokens => by
      cases qs with
      | nil => exact ⟨rfl, tokens⟩
      | cons => cases children
  | p :: ps, qs, _, _, _, _, _, licensed, licensed', fits, fits', labels, children, tokens => by
      cases qs with
      | nil => cases children
      | cons q qs =>
          obtain ⟨label, otherLabels⟩ := List.cons.inj labels
          obtain ⟨child, others⟩ := List.cons.inj children
          rw [tokensOf, tokensOf, List.append_assoc, List.append_assoc] at tokens
          obtain ⟨rfl, behind⟩ := Part.Licensed.eq_of_toChild licensed.1 licensed'.1
            (fits p List.mem_cons_self) (fits' q List.mem_cons_self) label child tokens
          obtain ⟨rfl, rest⟩ := Part.LicensedAll.eq_of_toChildren licensed.2 licensed'.2
            (fun part mem => fits part (List.mem_cons_of_mem _ mem))
            (fun part mem => fits' part (List.mem_cons_of_mem _ mem)) otherLabels others behind
          exact ⟨rfl, rest⟩

end

end UmkaSyntax
