import SqlalchemyCollectd.Protocol.Unpacker
import SqlalchemyCollectd.Server.Steps

/-!
# SqlalchemyCollectd.Server.Fields

Which groups of a summary come with all their fields.

Nothing between the wire and the summary compares the number of values of a message
with the fields of its type. The records of a group are added up value by value, and
the sum is as long as its shortest record; the translator then drops the fields that
the sum has no value for. So a group comes out whole exactly when each of its records
has a value for every field (`fields_whole_iff`).
-/

namespace SqlalchemyCollectd

namespace Receiver

open TimeBucket

variable {α : Type} [Add α] [Zero α]

/-- A group that a summary reports: `keys` of a bucket, aggregated in one of the two
ways. -/
structure Group (α : Type) where
  type : InternalType
  grouping : Grouping
  bucket : TimeBucket ProcessKey (Message α)
  keys : List ProcessKey

/-- The external values that come out for a group. -/
def Group.values (t : ℚ) (G : Group α) : List (Values α) :=
  (summarizeGroup G.grouping t G.bucket G.keys).values

/-- The groups that passes of a summary report, up to the first that raises. -/
def groupsReported (t : ℚ) : List (InternalType × Grouping) → Receiver α → List (Group α)
  | [], _ => []
  | (τ, g) :: ps, s =>
      match onBucket τ (TimeBucket.getData t none) s with
      | .ok _ s => (groupsOf g (s.buckets τ)).map (⟨τ, g, s.buckets τ, ·⟩) ++ groupsReported t ps s
      | .error _ _ => []

omit [Add α] [Zero α] in
theorem groupsReported_cons (t : ℚ) (τ : InternalType) (g : Grouping)
    (ps : List (InternalType × Grouping)) (s : Receiver α) :
    groupsReported t ((τ, g) :: ps) s =
      if (s.buckets τ).Accepts t none then
        (groupsOf g ((s.buckets τ).visit t none)).map (⟨τ, g, (s.buckets τ).visit t none, ·⟩) ++
          groupsReported t ps (s.setBucket τ ((s.buckets τ).visit t none))
      else [] := by
  rw [groupsReported]
  unfold onBucket getData
  rw [getBucket_eq]
  by_cases haccepts : (s.buckets τ).Accepts t none
  · rw [if_pos haccepts, if_pos haccepts]
    dsimp only
    rw [setBucket_same]
  · rw [if_neg haccepts, if_neg haccepts]

/-- **A summary consists of its groups.** -/
theorem summarizePasses_values {t : ℚ} (ps : List (InternalType × Grouping)) {s : Receiver α}
    (hfiled : ∀ σ, Filed σ (s.buckets σ)) :
    (summarizePasses t ps s).1.values = (groupsReported t ps s).flatMap (Group.values t) := by
  induction ps generalizing s with
  | nil => rfl
  | cons p ps ih =>
      obtain ⟨τ, g⟩ := p
      rw [summarizePasses_cons, groupsReported_cons]
      by_cases haccepts : (s.buckets τ).Accepts t none
      · have hvisited := filed_visit (hfiled τ) t none
        rw [summarizePass_of_accepts haccepts hvisited, if_pos haccepts,
          ← collect_summarizeGroup hvisited, List.flatMap_append, List.flatMap_map,
          ← ih (filed_setBucket_visit hfiled τ t)]
        have hgroup : ∀ keys ∈ groupsOf g ((s.buckets τ).visit t none),
            summarizeGroup g t ((s.buckets τ).visit t none) keys =
              ⟨Group.values t ⟨τ, g, (s.buckets τ).visit t none, keys⟩, none⟩ := by
          intro keys hkeys
          obtain ⟨hne, hpresent⟩ := of_mem_groupsOf hkeys
          rw [Group.values, summarizeGroup_eq hvisited hne hpresent]
        rw [Yielded.collect_eq hgroup]
        rfl
      · rw [summarizePass_of_not_accepts haccepts, if_neg haccepts]
        rfl

omit [Add α] [Zero α] in
/-- A group is one of its bucket, which the summary finds as it was, swept. -/
theorem of_mem_groupsReported {t : ℚ} {ps : List (InternalType × Grouping)} {s : Receiver α}
    {G : Group α} (h : G ∈ groupsReported t ps s) :
    (s.buckets G.type).Accepts t none ∧ G.bucket = (s.buckets G.type).visit t none ∧
      G.keys ∈ groupsOf G.grouping G.bucket := by
  induction ps generalizing s with
  | nil => cases h
  | cons p ps ih =>
      obtain ⟨τ, g⟩ := p
      rw [groupsReported_cons] at h
      split at h
      · rename_i haccepts
        rcases List.mem_append.mp h with h | h
        · obtain ⟨keys, hkeys, rfl⟩ := List.mem_map.mp h
          exact ⟨haccepts, rfl, hkeys⟩
        · obtain ⟨hagain, hbucket, hkeys⟩ := ih h
          by_cases hτ : G.type = τ
          · rw [hτ, setBucket_same, visit_visit haccepts] at hbucket
            rw [hτ]
            exact ⟨haccepts, hbucket, hkeys⟩
          · rw [setBucket_of_ne hτ] at hagain hbucket
            exact ⟨hagain, hbucket, hkeys⟩
      · cases h

/-- **A row of records has all fields** when none of the records is short of values. -/
theorem fields_rowValues_iff {t : ℚ} {τ : InternalType} {g : Grouping} {first : Message α}
    {rest : List (Message α)} :
    (rowValues t τ g (first :: rest)).map Values.typeInstance = τ.toType.names.map some ↔
      ∀ m ∈ first :: rest, τ.toType.names.length ≤ m.values.length := by
  constructor
  · intro h m hm
    by_contra hshort
    rw [not_le] at hshort
    -- the first field that the record has no value for
    have hfield := congrArg (·[m.values.length]?) h
    simp only [List.getElem?_map, getElem?_rowValues, List.getElem?_eq_getElem hshort,
      Option.bind_some, Option.map_some, Option.map_map, Option.map_eq_some_iff] at hfield
    obtain ⟨xs, hxs, -⟩ := hfield
    have hsome := (eq_filterMap_of_mapM hxs).1 m hm
    rw [List.getElem?_eq_none le_rfl] at hsome
    cases hsome
  · intro h
    refine List.ext_getElem? fun i => ?_
    rw [List.getElem?_map, List.getElem?_map, getElem?_rowValues]
    cases hname : τ.toType.names[i]? with
    | none => rfl
    | some field =>
        have hi := (List.getElem?_eq_some_iff.mp hname).1
        have hall : ∀ m ∈ first :: rest, (m.values[i]?).isSome := by
          intro m hm
          rw [List.getElem?_eq_getElem (hi.trans_le (h m hm))]
          rfl
        rw [Option.bind_some, mapM_eq_filterMap hall]
        rfl

/-- **When a summary leaves no field out.** After any run, a summary consists of the
groups it reports, and one of them comes with one external value for each field of its
type exactly when each fresh record of the group has a value for each. -/
theorem fields_whole_iff [One α] (ops : List (Op α)) (t : ℚ) :
    (summarize t (run ops)).1.values =
        (groupsReported t passes (run ops)).flatMap (Group.values t) ∧
      ∀ G ∈ groupsReported t passes (run ops),
        ((G.values t).map Values.typeInstance = G.type.toType.names.map some ↔
          ∀ k ∈ G.keys, ∀ r, ((run ops).buckets G.type).visible t k = some r →
            G.type.toType.names.length ≤ r.value.values.length) := by
  have hfiled := filed_run ops
  refine ⟨summarizePasses_values passes hfiled, fun G hG => ?_⟩
  obtain ⟨haccepts, hbucket, hkeys⟩ := of_mem_groupsReported hG
  have hvisited : Filed G.type G.bucket := hbucket ▸ filed_visit (hfiled G.type) t none
  have hget : ∀ k, G.bucket.bucket.get? k = ((run ops).buckets G.type).visible t k := by
    rw [hbucket]
    exact get?_visit_eq_visible haccepts
  obtain ⟨hne, hpresent⟩ := of_mem_groupsOf hkeys
  rw [Group.values, summarizeGroup_eq hvisited hne hpresent]
  obtain ⟨first, rest, hrecs⟩ := exists_filterMap_getItem? hne hpresent
  rw [hrecs, fields_rowValues_iff, ← hrecs]
  simp only [List.mem_filterMap, getItem?, hget, Option.map_eq_some_iff]
  constructor
  · intro h k hk r hr
    exact h r.value ⟨k, hk, r, hr, rfl⟩
  · rintro h _ ⟨k, hk, r, hr, rfl⟩
    exact h k hk r hr

/-- What a process of the program `web` reports about its pools. -/
def poolReport (token : String) (values : List Number) : Values Number where
  type := "sqlalchemy_pool"
  typeInstance := token
  plugin := "sqlalchemy"
  pluginInstance := "web"
  host := "h1"
  time := some 1000
  interval := 10
  values := values

/-- The datagram that a client with the given types makes of it. -/
def datagram (types : List CollectdType) (v : Values Number) : Struct.Bytes :=
  (packValues types v).toOption.getD []

/-- The messages that the server gets out of datagrams. -/
def received (bufs : List Struct.Bytes) : List (Op Number) :=
  bufs.filterMap fun buf =>
    match unpackBytes InternalType.types buf with
    | some (.ok (some m)) => some (.setStats m)
    | _ => none

/-- A full report, and one of a client whose pool type has a single field. -/
def mixedClients : List Struct.Bytes :=
  [datagram InternalType.types
      (poolReport "1:aa" [.int 1, .int 0, .int 1, .int 0, .int 1]),
    datagram [⟨"sqlalchemy_pool", [("numpools", .gauge)], by decide⟩]
      (poolReport "2:bb" [.int 1])]

/-- Both reports are stored, and neither the program nor the host has any connections. -/
theorem fields_lost_mixedClients :
    ((run (received mixedClients)).buckets .pool).bucket.keys =
        [⟨"h1", "web", "1:aa"⟩, ⟨"h1", "web", "2:bb"⟩] ∧
      (summarize 1000 (run (received mixedClients))).1.raised = none ∧
      ((groupsReported 1000 passes (run (received mixedClients))).filter fun G =>
        G.type = .pool).map (fun G => (G.keys.length, (G.values 1000).map Values.typeInstance)) =
          [(2, [some "numpools"]), (2, [some "numpools"])] ∧
      ¬∀ G ∈ groupsReported 1000 passes (run (received mixedClients)),
        (G.values 1000).map Values.typeInstance = G.type.toType.names.map some :=
  ⟨by decide +kernel, by decide +kernel, by decide +kernel, by decide +kernel⟩

end Receiver

end SqlalchemyCollectd
