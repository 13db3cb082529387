import SqlalchemyCollectd.CollectdTypes

/-!
# SqlalchemyCollectd.Stream.Translator

`StreamTranslator`: internal `Values` objects, with one value for each field,
broken into external ones of type `count` or `derive` with one value each.

The tables of the translator are looked up by name, the external types of the
fields in the same dictionary as the internal types; `externalRow` is what comes
out for the types of the receiver, where no name occurs twice.
-/

namespace SqlalchemyCollectd

/-- `self.external_types`: the `Type` built for a field, the last of that name. -/
def externalType? (types : List CollectdType) (name : String) : Option CollectdType :=
  ((types.flatMap (·.dbTemplate)).reverse.find? fun f => f.1 = name).map fun f =>
    ⟨name, [("value", f.2)], by simp⟩

/-- `self._type_by_name`, where the types of the fields overwrite the internal ones. -/
def typeByName? (types : List CollectdType) (name : String) : Option CollectdType :=
  (externalType? types name).orElse fun _ => CollectdType.lookup? types name

/-- `self._protocol_type_string_names`. -/
def protocolTypeStringName? : ValueType → Option String
  | .gauge => some "count"
  | .derive => some "derive"
  | .counter => none
  | .absolute => none

variable {α : Type}

/-- The body of the loop of `break_into_individual_values`. -/
def individualValue (types : List CollectdType) (v : Values α) :
    (String × ValueType) × α → Yielded (Values α)
  | ((name, protocolType), element) =>
      match externalType? types name, protocolTypeStringName? protocolType with
      | some externalType, some string =>
          ⟨[{ v with typeInstance := externalType.name, type := string, values := [element] }],
            none⟩
      | _, _ => ⟨[], some .keyError⟩

/-- `StreamTranslator.break_into_individual_values`, of the translator for `types`. -/
def breakIntoIndividualValues (types : List CollectdType) (v : Values α) : Yielded (Values α) :=
  match v.type.bind (typeByName? types) with
  | some internalType => .collect (individualValue types v) (internalType.dbTemplate.zip v.values)
  | none => ⟨[], some .keyError⟩

/-! ### The types of the receiver -/

namespace InternalType

/-- `Receiver.collectd_types`, as `Type` objects. -/
def types : List CollectdType := all.map toType

/-- The external type that carries the fields of an internal type. -/
def externalName : InternalType → String
  | pool => "count"
  | totals => "derive"
  | process => "count"

/-- The external value for one field. -/
def externalRow (τ : InternalType) (v : Values α) (field : String) (value : α) : Values α :=
  { v with typeInstance := field, type := τ.externalName, values := [value] }

theorem eq_totals_of_derive {τ : InternalType} (h : τ.externalName = "derive") : τ = totals := by
  cases τ with
  | totals => rfl
  | pool => exact absurd h (by decide)
  | process => exact absurd h (by decide)

theorem typeByName?_name (τ : InternalType) : typeByName? types τ.name = some τ.toType := by
  cases τ <;> decide

theorem individualValue_eq (τ : InternalType) (v : Values α) {f : String × ValueType}
    (hf : f ∈ τ.toType.dbTemplate) (x : α) :
    individualValue types v (f, x) = ⟨[τ.externalRow v f.1 x], none⟩ := by
  have hexternal : ∀ f ∈ τ.toType.dbTemplate,
      (externalType? types f.1).map CollectdType.name = some f.1 ∧
        protocolTypeStringName? f.2 = some τ.externalName := by
    cases τ <;> decide
  obtain ⟨hname, hstring⟩ := hexternal f hf
  obtain ⟨t, ht, htname⟩ := Option.map_eq_some_iff.mp hname
  obtain ⟨name, protocolType⟩ := f
  simp only [individualValue, externalRow]
  rw [ht, hstring]
  dsimp only
  rw [htname]

/-- **Breaking up never fails.** A `Values` object of an internal type becomes one
external value for each field, cut to the values it has. -/
theorem breakIntoIndividualValues_eq (τ : InternalType) {v : Values α}
    (htype : v.type = some τ.name) :
    breakIntoIndividualValues types v =
      ⟨List.zipWith (τ.externalRow v) τ.toType.names v.values, none⟩ := by
  unfold breakIntoIndividualValues
  rw [htype, Option.bind_some, typeByName?_name]
  have hrow : ∀ p ∈ τ.toType.dbTemplate.zip v.values,
      individualValue types v p = ⟨[τ.externalRow v p.1.1 p.2], none⟩ :=
    fun p hp => individualValue_eq τ v (List.of_mem_zip hp).1 p.2
  dsimp only
  rw [Yielded.collect_eq hrow, CollectdType.names, List.zipWith_map_left,
    ← List.map_uncurry_zip_eq_zipWith]
  congr 1
  exact List.flatMap_pure_eq_map _ _

end InternalType

end SqlalchemyCollectd
