import PyFaaS.Isolation.Statements
import PyFaaS.Routers.Keys

/-!
# The key routes are isolated

A key in a header belongs to one user: hashes of keys are unique.
-/

namespace PyFaaS.Api
open Noninterference Transactions Database

variable {u : Uuid} {P : Database → Prop} {s : Database} {settings : ApiSettings} {g : Given}

theorem listKeys_isolated : IsolatedFor u P (listKeys u) fun _ _ => True := by
  unfold listKeys
  refine Isolated.bind (isolated_query ?_) fun rows => isolated_return _
  intro s _ _
  apply Table.filter_owned
  exact fun _ _ h => h

theorem createKey_isolated (name : Text) :
    IsolatedFor u (Supplied settings g) (createKey settings u g name) fun _ _ => True := by
  unfold createKey
  refine Isolated.bind (isolated_write (R := fun _ => True) ?_) fun _ => isolated_return _
  intro s hs hsupplied
  exact ⟨insertApiKey_confined hs rfl hsupplied.id hsupplied.hash, trivial⟩

theorem revokeKey_isolated (keyId : Uuid) : IsolatedFor u P (revokeKey u g keyId) fun _ _ => True := by
  unfold revokeKey
  refine Isolated.bind (isolated_query ?_) fun row => Isolated.bind (Isolated.found _ _) fun key =>
    Isolated.bind (isolated_write (R := fun _ => True) ?_) fun _ => isolated_return _
  · intro s _ _
    apply Table.find?_owned
    intro k _ hk
    exact (Bool.and_eq_true_iff.mp hk).2
  · rintro s hs ⟨⟨-, hrow⟩, rfl⟩
    have hprop := List.find?_some hrow.symm
    have howner : key.ownerId = u := of_decide_eq_true (Bool.and_eq_true_iff.mp hprop).2
    exact ⟨updateApiKey_confined hs (List.mem_of_find?_eq_some hrow.symm) howner
      fun _ => ⟨rfl, rfl, rfl⟩, trivial⟩

/-! ## The principal -/

/-- The value is a key of the user, revoked or not. -/
def KeyOf (settings : ApiSettings) (u : Uuid) (value : Text) (s : Database) : Prop :=
  ∃ k ∈ s.apiKeys, k.keyHash = settings.hashApiKey value ∧ k.ownerId = u

theorem KeyOf.owner (hs : WellFormed s) {value : Text} (h : KeyOf settings u value s) {k : ApiKey}
    (hk : k ∈ s.apiKeys) (hhash : k.keyHash = settings.hashApiKey value) : k.ownerId = u := by
  obtain ⟨k', hk', hhash', rfl⟩ := h
  rw [List.inj_on_of_nodup_map hs.keyHashes hk hk' (hhash.trans hhash'.symm)]

theorem supplied_updateApiKey {id : Uuid} {edit : ApiKey → ApiKey} (h : Supplied settings g s)
    (hedit : ∀ k, (edit k).id = k.id ∧ (edit k).keyHash = k.keyHash) :
    Supplied settings g (updateApiKey id edit s) := by
  constructor
  · refine { h.id with apiKeys := fun k hk => ?_ }
    rcases Table.mem_modify hk with ⟨hk, -⟩ | ⟨k₀, hk₀, -, rfl⟩
    · exact h.id.apiKeys k hk
    · rw [(hedit k₀).1]
      exact h.id.apiKeys k₀ hk₀
  · intro k hk
    rcases Table.mem_modify hk with ⟨hk, -⟩ | ⟨k₀, hk₀, -, rfl⟩
    · exact h.hash k hk
    · rw [(hedit k₀).2]
      exact h.hash k₀ hk₀

structure Principal (u : Uuid) (key : ApiKey) (s : Database) : Prop where
  owner : key.ownerId = u
  row : ∃ k ∈ s.apiKeys, k.id = key.id ∧ k.ownerId = u

theorem Principal.keyOwner (hs : WellFormed s) {key : ApiKey} (h : Principal u key s) {k : ApiKey}
    (hk : k ∈ s.apiKeys) (hid : k.id = key.id) : k.ownerId = u := by
  obtain ⟨k', hk', hid', rfl⟩ := h.row
  rw [List.inj_on_of_nodup_map hs.keyIds hk hk' (hid.trans hid'.symm)]

theorem getApiKeyPrincipal_isolated {value : Text} :
    IsolatedFor u (fun s => Supplied settings g s ∧ KeyOf settings u value s)
      (getApiKeyPrincipal settings g (some value)) fun key s => Supplied settings g s ∧ Principal u key s := by
  unfold getApiKeyPrincipal
  refine Isolated.bind (Isolated.found _ _) fun value' => Isolated.bind (isolated_query ?_) fun row =>
    Isolated.bind (Isolated.found _ _) fun key =>
      Isolated.bind (isolated_write (R := fun s => Supplied settings g s ∧ Principal u key s) ?_) fun _ =>
        (Isolated.pure _).pre ?_
  · rintro s hs ⟨⟨-, hkey⟩, hvalue⟩
    obtain rfl : value = value' := Option.some.inj (Option.eq_some_of_filter_eq_some hvalue)
    apply Table.find?_owned
    intro k hk hprop
    exact decide_eq_true (hkey.owner hs hk (of_decide_eq_true (Bool.and_eq_true_iff.mp hprop).1))
  · rintro s hs ⟨⟨⟨⟨hsupplied, hkey⟩, hvalue⟩, hrow⟩, rfl⟩
    obtain rfl : value = value' := Option.some.inj (Option.eq_some_of_filter_eq_some hvalue)
    have hprop := List.find?_some hrow.symm
    have hmem := List.mem_of_find?_eq_some hrow.symm
    have howner := hkey.owner hs hmem (of_decide_eq_true (Bool.and_eq_true_iff.mp hprop).1)
    refine ⟨updateApiKey_confined hs hmem howner fun _ => ⟨rfl, rfl, rfl⟩,
      supplied_updateApiKey hsupplied fun _ => ⟨rfl, rfl⟩, howner, ?_⟩
    exact ⟨_, List.mem_map.mpr ⟨key, hmem, if_pos rfl⟩, rfl, howner⟩
  · rintro s - ⟨hsupplied, hkey⟩
    exact ⟨hsupplied, hkey.owner, hkey.row⟩

end PyFaaS.Api
