import PyFaaS.ActiveFunctions
import PyFaaS.Footprints
import PyFaaS.Roster

/-!
# The life of an API key

The rows of the keys keep a roster: `create_key` grants a key under the hash of its text,
and `revoke_key` withdraws it for its owner. No other transaction of the routes, of the
scheduler or of a worker touches the roster, so that a key opens the routes of its owner
from its creation until its owner revokes it.
-/

namespace PyFaaS.KeyLedger
open Api Database Transactions
open Runs (Run)

section
variable {settings : ApiSettings} {g : Given} {u functionId : Uuid}

/-! ## Routes that leave the keys alone -/

theorem blind_apiKeys : Blind apiKeys := fun _ _ _ _ _ => rfl

theorem deleteFunction_keeps : Keeps apiKeys (deleteFunction u g functionId) := by
  unfold deleteFunction
  refine Keeps.bind getFunctionOr404_keeps fun fn => Keeps.bind (Keeps.query _) fun _ =>
    Keeps.bind (Keeps.require _ _) fun _ => Keeps.bind (Keeps.query _) fun versions =>
      Keeps.bind (Keeps.write fun db => ?_) fun _ => ?_
  · rw [deleteStatements_eq]
    rfl
  · cases (versions.map FunctionVersion.artifactPath).find? g.storageFails with
    | some path => exact Keeps.abort _
    | none => exact Keeps.pure _

theorem createVersion_keeps (archive : Archive) (form : VersionForm) :
    Keeps apiKeys (createVersion settings u g functionId archive form) := by
  unfold createVersion
  exact Keeps.bind getFunctionOr404_keeps fun fn => Keeps.bind (Keeps.require _ _) fun _ =>
    Keeps.bind (Keeps.require _ _) fun _ => Keeps.bind (Keeps.require _ _) fun _ =>
      Keeps.bind (Keeps.query _) fun versions => Keeps.bind (Keeps.require _ _) fun _ =>
        Keeps.bind (Keeps.require _ _) fun _ => Keeps.bind (Keeps.write fun _ => rfl) fun _ =>
          Keeps.bind (Keeps.write fun _ => rfl) fun _ => Keeps.pure _

theorem reroute_keeps (edit : Function → Function) (row : VersionActivation) (id : Uuid) (now : Time)
    (loaded : FunctionResponse) :
    Keeps apiKeys (do
      write (Database.updateFunction id (touchFunction now edit))
      write (insertActivation row)
      reload u functionId loaded) :=
  Keeps.bind (Keeps.write fun _ => rfl) fun _ => Keeps.bind (Keeps.write fun _ => rfl) fun _ => reload_keeps _

theorem updateCanary_keeps (body : CanaryUpdate) : Keeps apiKeys (updateCanary u g functionId body) := by
  unfold updateCanary
  refine Keeps.bind getFunctionOr404_keeps fun fn => ?_
  cases body.canaryVersionId with
  | none => exact reroute_keeps _ _ _ _ _
  | some versionId =>
    cases decide (body.canaryPercent = 0) with
    | true => exact reroute_keeps _ _ _ _ _
    | false =>
      refine Keeps.bind (getActiveVersionOr404_keeps _) fun version => Keeps.bind (Keeps.require _ _) fun _ => ?_
      by_cases hall : body.canaryPercent = 100
      · simp only [hall, if_true]
        exact reroute_keeps _ _ _ _ _
      · simp only [hall, if_false]
        exact reroute_keeps _ _ _ _ _

theorem user_keeps (r : UserRequest) (hcreate : ∀ name, r ≠ .createKey name) (hrevoke : ∀ keyId, r ≠ .revokeKey keyId) :
    Keeps apiKeys (r.handle settings g u) := by
  cases r with
  | createFunction name description tags =>
    exact Keeps.bind (Keeps.query _) fun _ => Keeps.bind (Keeps.require _ _) fun _ =>
      Keeps.bind (Keeps.query _) fun _ => Keeps.bind (Keeps.require _ _) fun _ =>
      Keeps.bind (Keeps.write fun _ => rfl) fun _ => Keeps.pure _
  | updateFunction functionId body =>
    exact Keeps.bind getFunctionOr404_keeps fun _ => Keeps.bind (Keeps.write fun _ => rfl) fun _ =>
      Keeps.bind getFunctionOr404_keeps fun _ => Keeps.pure _
  | deleteFunction functionId => exact deleteFunction_keeps
  | createVersion functionId archive form => exact createVersion_keeps archive form
  | activateVersion functionId versionId =>
    exact Keeps.bind getFunctionOr404_keeps fun _ => Keeps.bind (getActiveVersionOr404_keeps _) fun _ =>
      reroute_keeps _ _ _ _ _
  | updateCanary functionId body => exact updateCanary_keeps body
  | createKey name => exact absurd rfl (hcreate name)
  | revokeKey keyId => exact absurd rfl (hrevoke keyId)
  | _ => exact blind_apiKeys.light rfl

end

/-! ## The roster of the keys -/

def member (k : ApiKey) : Roster.Member Uuid (Uuid × Text) where
  id := k.id
  value := (k.ownerId, k.keyHash)
  live := k.revokedAt.isNone

def roster (db : Database) : List (Roster.Member Uuid (Uuid × Text)) := db.apiKeys.map member

def event (settings : ApiSettings) : Action → Roster.Event Uuid (Uuid × Text)
  | .request (.asUser user (.createKey _)) g => .grant g.newId (user, settings.hashApiKey g.rawKey)
  | .request (.asUser user (.revokeKey keyId)) _ => .withdraw keyId fun value => decide (value.1 = user)
  | _ => .other

variable {settings : ApiSettings} {timing : SchedulerSettings} {g : Given} {u : Uuid} {s s' : Database} {a : Action}
  {as : List Action} {value : Text}

theorem roster_of_keys (h : s'.apiKeys = s.apiKeys) : roster s' = roster s := by
  rw [roster, h, roster]

theorem createKey_roster (name : Text) : roster (perform settings g (.asUser u (.createKey name)) s).2 =
    Roster.enter (roster s) (event settings (.request (.asUser u (.createKey name)) g)) :=
  List.map_append

theorem retire_member {keyId : Uuid} {k : ApiKey} :
    Roster.retire keyId (fun value => decide (value.1 = u)) (member k) =
      if k.id = keyId ∧ k.ownerId = u then { member k with live := false } else member k :=
  if_congr (and_congr Iff.rfl decide_eq_true_iff) rfl rfl

theorem revokeKey_roster (hs : WellFormed s) (keyId : Uuid) :
    roster (perform settings g (.asUser u (.revokeKey keyId)) s).2 =
      Roster.enter (roster s) (event settings (.request (.asUser u (.revokeKey keyId)) g)) := by
  rw [event, Roster.enter, roster, roster, List.map_map]
  cases hfind : s.apiKeys.find? fun k => decide (k.id = keyId) && decide (k.ownerId = u) with
  | none =>
    have herror : (Request.asUser u (.revokeKey keyId)).handle settings g s =
        .error (.exception 404 "API key not found".toList) := by
      change revokeKey u g keyId s = _
      rw [revokeKey, query_bind, hfind, found_none_bind]
    rw [perform_of_error herror]
    refine List.map_congr_left fun k hk => ?_
    have hnot : ¬ (k.id = keyId ∧ k.ownerId = u) := by simpa using List.find?_eq_none.mp hfind k hk
    rw [Function.comp_apply, retire_member, if_neg hnot]
  | some key =>
    have hok : (Request.asUser u (.revokeKey keyId)).handle settings g s =
        .ok (.noContent, updateApiKey key.id (fun row => { row with revokedAt := some g.now }) s) := by
      change revokeKey u g keyId s = _
      rw [revokeKey, query_bind, hfind, found_some_bind, write_bind]
      rfl
    have hkey := List.find?_some hfind
    simp only [Bool.and_eq_true, decide_eq_true_eq] at hkey
    have hmem := List.mem_of_find?_eq_some hfind
    rw [perform_of_ok hok]
    change (Table.modify s.apiKeys key.id _).map member = _
    rw [Table.modify, List.map_map]
    refine List.map_congr_left fun k hk => ?_
    rw [Function.comp_apply, Function.comp_apply, retire_member]
    change member (if k.id = key.id then _ else k) = _
    by_cases hid : k.id = key.id
    · obtain rfl : k = key := List.inj_on_of_nodup_map hs.keyIds hk hmem hid
      rw [if_pos hid, if_pos hkey]
      rfl
    · have hnot : ¬ (k.id = keyId ∧ k.ownerId = u) := fun h => hid (h.1.trans hkey.1.symm)
      rw [if_neg hid, if_neg hnot]

theorem principal_roster {r : InvokeRequest} {xSopmKey : Text} :
    roster (perform settings g (.withKey xSopmKey r) s).2 = roster s := by
  cases hkey : ActiveFunctions.principal settings s xSopmKey with
  | none =>
    obtain ⟨e, he⟩ := ActiveFunctions.getApiKeyPrincipal_none (g := g) hkey
    have herror : (Request.withKey xSopmKey r).handle settings g s = .error e := bind_error he
    rw [perform_of_error herror]
  | some key =>
    have hused : roster (updateApiKey key.id (fun row => { row with lastUsedAt := some g.now }) s) = roster s :=
      Table.map_modify fun _ => rfl
    have hrun : (Request.withKey xSopmKey r).handle settings g s = _ :=
      bind_run (ActiveFunctions.getApiKeyPrincipal_some hkey)
    cases hrest : r.handle g { key with lastUsedAt := some g.now }
        (updateApiKey key.id (fun row => { row with lastUsedAt := some g.now }) s) with
    | error e =>
      rw [hrest] at hrun
      rw [perform_of_error hrun]
    | ok p =>
      rw [hrest] at hrun
      rw [perform_of_ok hrun, ← hused]
      exact roster_of_keys (blind_apiKeys.invoke r _ _ _ hrest)

theorem user_roster {r : UserRequest} (hcreate : ∀ name, r ≠ .createKey name)
    (hrevoke : ∀ keyId, r ≠ .revokeKey keyId) :
    roster (perform settings g (.asUser u r) s).2 = roster s :=
  roster_of_keys ((user_keeps r hcreate hrevoke).transact s)

theorem step_roster (hs : WellFormed s) (h : Step settings timing s a s') :
    roster s' = Roster.enter (roster s) (event settings a) := by
  cases h with
  | @request r g hg =>
    cases r with
    | withKey xSopmKey r => exact principal_roster
    | asUser user r =>
      cases r with
      | createKey name => exact createKey_roster name
      | revokeKey keyId => exact revokeKey_roster hs keyId
      | _ =>
        apply user_roster
        · simp
        · simp
  | fire => rfl
  | failEnqueue => rfl
  | advance => rfl
  | recordRun => rfl
  | worker => rfl

theorem run_roster (hs : WellFormed s) (h : Run (Step settings timing) s as s') :
    WellFormed s' ∧ roster s' = (as.map (event settings)).foldl Roster.enter (roster s) := by
  induction h with
  | nil s => exact ⟨hs, rfl⟩
  | cons hstep _ ih =>
    obtain ⟨hwellFormed, hroster⟩ := ih (step_wellFormed hs hstep)
    rw [step_roster hs hstep] at hroster
    exact ⟨hwellFormed, hroster⟩

/-! ## The life of a key -/

def Opens (settings : ApiSettings) (g : Given) (s : Database) (value : Text) (u : Uuid) : Prop :=
  ∃ key t, getApiKeyPrincipal settings g (some value) s = .ok (key, t) ∧ key.ownerId = u

theorem opens_principal : Opens settings g s value u ↔
    ∃ key, ActiveFunctions.principal settings s value = some key ∧ key.ownerId = u := by
  unfold Opens
  cases hkey : ActiveFunctions.principal settings s value with
  | none =>
    obtain ⟨e, he⟩ := ActiveFunctions.getApiKeyPrincipal_none (g := g) hkey
    simp [he]
  | some key =>
    simp [ActiveFunctions.getApiKeyPrincipal_some hkey]

theorem mem_roster {id : Uuid} {hash : Text} :
    (⟨id, (u, hash), true⟩ : Roster.Member Uuid (Uuid × Text)) ∈ roster s ↔
      ∃ k ∈ s.apiKeys, k.id = id ∧ k.ownerId = u ∧ k.keyHash = hash ∧ k.revokedAt.isNone = true := by
  simp only [roster, member, List.mem_map, Roster.Member.mk.injEq, Prod.mk.injEq, and_assoc]

theorem opens_iff (hs : WellFormed s) : Opens settings g s value u ↔
    value ≠ [] ∧ ∃ id, (⟨id, (u, settings.hashApiKey value), true⟩ : Roster.Member Uuid (Uuid × Text)) ∈ roster s := by
  have hempty : value.isEmpty = true ↔ value = [] := List.isEmpty_iff
  rw [opens_principal, ActiveFunctions.principal]
  by_cases hvalue : value = []
  · simp [hvalue]
  · rw [if_neg (mt hempty.mp hvalue)]
    simp only [mem_roster, ne_eq, hvalue, not_false_iff, true_and]
    constructor
    · intro h
      obtain ⟨key, hfind, howner⟩ := h
      have hprop := List.find?_some hfind
      simp only [Bool.and_eq_true, decide_eq_true_eq] at hprop
      exact ⟨key.id, key, List.mem_of_find?_eq_some hfind, rfl, howner, hprop.1, hprop.2⟩
    · intro h
      obtain ⟨id, key, hkey, -, howner, hhash, hlive⟩ := h
      have hsome : (s.apiKeys.find? fun k =>
          decide (k.keyHash = settings.hashApiKey value) && k.revokedAt.isNone).isSome :=
        List.find?_isSome.mpr ⟨key, hkey, by simp [hhash, hlive]⟩
      obtain ⟨found, hfind⟩ := Option.isSome_iff_exists.mp hsome
      have hprop := List.find?_some hfind
      simp only [Bool.and_eq_true, decide_eq_true_eq] at hprop
      have hsame : found = key := List.inj_on_of_nodup_map hs.keyHashes (List.mem_of_find?_eq_some hfind) hkey
        (hprop.1.trans hhash.symm)
      exact ⟨found, hfind, hsame ▸ howner⟩

theorem grants_iff {id : Uuid} {hash : Text} : event settings a = .grant id (u, hash) ↔
    ∃ name g, a = .request (.asUser u (.createKey name)) g ∧ g.newId = id ∧ settings.hashApiKey g.rawKey = hash := by
  unfold event
  split
  · rename_i user name g
    simp only [Roster.Event.grant.injEq, Prod.mk.injEq, Action.request.injEq, Request.asUser.injEq,
      UserRequest.createKey.injEq]
    constructor
    · rintro ⟨rfl, rfl, rfl⟩
      exact ⟨name, g, ⟨⟨rfl, rfl⟩, rfl⟩, rfl, rfl⟩
    · rintro ⟨_, _, ⟨⟨rfl, rfl⟩, rfl⟩, rfl, rfl⟩
      exact ⟨rfl, rfl, rfl⟩
  · simp
  · rename_i hnot _
    refine iff_of_false (by simp) fun h => ?_
    obtain ⟨name, g, rfl, -⟩ := h
    exact hnot _ _ _ rfl

theorem spares_iff {id : Uuid} {hash : Text} : (event settings a).withdraws id (u, hash) = false ↔
    ∀ g, a ≠ .request (.asUser u (.revokeKey id)) g := by
  unfold event
  split
  · simp [Roster.Event.withdraws]
  · rename_i user keyId g
    simp only [Roster.Event.withdraws, Bool.and_eq_false_imp, decide_eq_true_eq, decide_eq_false_iff_not, ne_eq,
      Action.request.injEq, Request.asUser.injEq, UserRequest.revokeKey.injEq]
    constructor
    · rintro h g' ⟨⟨rfl, rfl⟩, -⟩
      exact h rfl rfl
    · rintro h rfl rfl
      exact h g ⟨⟨rfl, rfl⟩, rfl⟩
  · rename_i hnot
    refine iff_of_true rfl fun g h => hnot _ _ _ h

/-- A text opens the routes of a user exactly if the user has created a key with it and has
not revoked that key since. Nothing else that happens in between matters. -/
theorem key_lifetime (h : Run (Step settings timing) empty as s) : Opens settings g s value u ↔
    value ≠ [] ∧ ∃ before name g' after, as = before ++ .request (.asUser u (.createKey name)) g' :: after ∧
      settings.hashApiKey g'.rawKey = settings.hashApiKey value ∧
      ∀ g'', Action.request (.asUser u (.revokeKey g'.newId)) g'' ∉ after := by
  obtain ⟨hs, hroster⟩ := run_roster wellFormed_empty h
  rw [opens_iff hs, hroster]
  refine and_congr_right fun _ => ?_
  simp only [Roster.live_iff]
  constructor
  · intro hlive
    obtain ⟨id, ⟨hnil, -⟩ | ⟨before, after, hevents, hafter⟩⟩ := hlive
    · cases hnil
    · obtain ⟨before', rest, rfl, -, hrest⟩ := List.map_eq_append_iff.mp hevents
      obtain ⟨a, after', rfl, hgrant, rfl⟩ := List.map_eq_cons_iff.mp hrest
      obtain ⟨name, g', rfl, rfl, hhash⟩ := grants_iff.mp hgrant
      refine ⟨before', name, g', after', rfl, hhash, fun g'' hmem => ?_⟩
      exact spares_iff.mp (hafter _ (List.mem_map_of_mem hmem)) g'' rfl
  · intro hcreated
    obtain ⟨before, name, g', after, rfl, hhash, hafter⟩ := hcreated
    refine ⟨g'.newId, Or.inr ⟨before.map (event settings), after.map (event settings), ?_, ?_⟩⟩
    · rw [List.map_append, List.map_cons, grants_iff.mpr ⟨name, g', rfl, rfl, hhash⟩]
    · rw [List.forall_mem_map]
      intro a ha
      exact spares_iff.mpr fun g'' heq => hafter g'' (heq ▸ ha)

/-! The first of two keys is revoked. -/

def sampleActions : List Action :=
  [.request (.asUser 7 (.createKey "laptop".toList)) (sampleGiven 1),
    .request (.asUser 7 (.createKey "ci".toList)) { sampleGiven 2 with rawKey := "spare".toList },
    .request (.asUser 7 (.revokeKey 1)) { sampleGiven 3 with rawKey := "unused".toList }]

theorem key_lifetime_sample : ∃ s : Database, Run (Step sampleSettings ⟨30, 3⟩) empty sampleActions s ∧
    Opens sampleSettings (sampleGiven 4) s "spare".toList 7 ∧
    ¬ Opens sampleSettings (sampleGiven 4) s "key".toList 7 := by
  have hrun : ∃ s : Database, Run (Step sampleSettings ⟨30, 3⟩) empty sampleActions s :=
    ⟨_, .cons (.request (by decide)) (.cons (.request (by decide)) (.single (.request (by decide))))⟩
  obtain ⟨s, hrun⟩ := hrun
  refine ⟨s, hrun, (key_lifetime hrun).mpr ⟨by decide, [_], "ci".toList, _, [_], rfl, rfl, ?_⟩, fun hopens => ?_⟩
  · intro g'' hmem
    have hrevoked := (Request.asUser.inj (Action.request.inj (List.mem_singleton.mp hmem)).1).2
    exact absurd (UserRequest.revokeKey.inj hrevoked) (by decide)
  · obtain ⟨-, before, name, g', after, hactions, hhash, hafter⟩ := (key_lifetime hrun).mp hopens
    rcases before with _ | ⟨first, _ | ⟨second, _ | ⟨third, before⟩⟩⟩
    · -- the key that is revoked
      obtain ⟨hcreate, rfl⟩ := List.cons.inj hactions
      obtain ⟨-, rfl⟩ := Action.request.inj hcreate
      exact hafter _ (List.mem_cons_of_mem _ (List.mem_singleton_self _))
    · -- a key of another text
      obtain ⟨-, hrest⟩ := List.cons.inj hactions
      obtain ⟨-, rfl⟩ := Action.request.inj (List.cons.inj hrest).1
      exact absurd hhash (by decide)
    · simp [sampleActions] at hactions
    · simp [sampleActions] at hactions

end PyFaaS.KeyLedger
