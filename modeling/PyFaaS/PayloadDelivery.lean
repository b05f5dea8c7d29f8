import PyFaaS.PayloadLimit
import PyFaaS.ProcessEnvironment
import PyFaaS.Runner

/-!
# The way of a payload to the handler

The trigger route puts the payload into a queue member; the worker writes it into
an environment variable of the subprocess or of the Job; the runner parses the
variable, and takes a text that it cannot parse for an empty object.
-/

namespace PyFaaS.PayloadDelivery
open Api ProcessEnvironment Runs Submissions TextLines

/-! ## The queue member -/

def triggerMember (uuidText : Uuid → Text) (executionId : Uuid) (fn : Function) (version : FunctionVersion)
    (body : ExecutionTrigger) : Json :=
  .obj [("job_id".toList, .str (uuidText executionId)),
    ("execution_id".toList, .str (uuidText executionId)),
    ("function_id".toList, .str (uuidText fn.id)),
    ("version_id".toList, .str (uuidText version.id)),
    ("artifact_path".toList, .str version.artifactPath),
    ("entrypoint".toList, .str version.entrypoint),
    ("payload".toList, body.payload),
    ("timeout".toList, .int (body.timeoutOr version.timeout)),
    ("environment".toList, version.environment),
    ("memory_mb".toList, .int version.memoryMb),
    ("execution_type".toList, .str "function".toList)]

def specText (spec : Json) (key : String) (default : String) : Text :=
  match spec.get? key.toList with
  | some (.str x) => x
  | _ => default.toList

/-! ## The two carriers -/

/-- What the worker, the cluster and the image bring along: `str` is Python's text
of a value, `expand` the expansion of references that the kubelet makes in the
value of a variable, and `refuses` tells why else a process may not start. -/
structure Host where
  osEnviron : Environ
  imageEnviron : Environ
  serviceEnviron : Environ
  secret : Text → Text
  str : Json → Text
  defaultTimeout : ℤ
  expand : (Text → Option Text) → Text → Text
  refuses : Environ → Bool
  world : Runner.World
  signature : Runner.Signature
  context : Json

def payloadName : Text := "SOPM_PAYLOAD".toList

section
variable (codec : JsonCodec) (h : Host) (spec : Json)

def payloadText : Text := codec.dumps ((spec.get? "payload".toList).getD (.obj []))

def sourceCode : Option Json :=
  match spec.get? "source_code".toList with
  | none | some .null => none
  | some code => some code

def userVariables : List (Text × Text) :=
  match spec.get? "environment".toList with
  | some (.obj fields) => fields.map fun field => (field.1, h.str field.2)
  | _ => []

def localVariables : List (Text × Text) :=
  let executionId := specText spec "execution_id" ""
  let versionId := specText spec "version_id" "unknown"
  [("SOPM_EXECUTION_ID".toList, executionId),
    ("SOPM_ARTIFACT_PATH".toList, specText spec "artifact_path" ""),
    ("SOPM_ENTRYPOINT".toList, specText spec "entrypoint" "handler.handler"),
    (payloadName, payloadText codec spec),
    ("SOPM_TIMEOUT".toList, h.str ((spec.get? "timeout".toList).getD (.int h.defaultTimeout))),
    ("SOPM_WORK_DIR".toList, "/tmp/sopm-exec-".toList ++ executionId),
    ("SOPM_VERSION_ID".toList, versionId),
    ("SOPM_CACHE_DIR".toList, "/tmp/sopm-cache-".toList ++ versionId),
    ("HOME".toList, "/tmp".toList),
    ("PIP_CACHE_DIR".toList, "/tmp/pip-cache".toList),
    ("PYTHONPYCACHEPREFIX".toList, "/tmp/pycache".toList)]

def localEnvironment : Environ :=
  let env := setAll h.osEnviron (localVariables codec h spec)
  let env := match sourceCode spec with
    | some code => unset (set env "SOPM_SOURCE_CODE".toList (h.str code)) "SOPM_CACHE_DIR".toList
    | none => env
  setAll env (userVariables h spec)

inductive EnvSource where
  | value (v : Text)
  | secret (key : Text)

def leadingVariables : List (Text × EnvSource) :=
  [("SOPM_EXECUTION_ID".toList, .value (specText spec "execution_id" "")),
    ("SOPM_ARTIFACT_PATH".toList, .value (specText spec "artifact_path" "")),
    ("SOPM_ENTRYPOINT".toList, .value (specText spec "entrypoint" ""))]

def trailingVariables : List (Text × EnvSource) :=
  [("SOPM_TIMEOUT".toList, .value (h.str ((spec.get? "timeout".toList).getD (.int 300)))),
    ("HOME".toList, .value "/tmp".toList),
    ("PIP_CACHE_DIR".toList, .value "/tmp/pip-cache".toList),
    ("PYTHONPYCACHEPREFIX".toList, .value "/tmp/pycache".toList),
    ("MINIO_ENDPOINT".toList, .secret "minio-endpoint".toList),
    ("MINIO_ACCESS_KEY".toList, .secret "minio-access-key".toList),
    ("MINIO_SECRET_KEY".toList, .secret "minio-secret-key".toList)] ++
    ((sourceCode spec).map fun code => ("SOPM_SOURCE_CODE".toList, EnvSource.value (h.str code))).toList ++
    (userVariables h spec).map fun entry => (entry.1, .value entry.2)

def jobVariables : List (Text × EnvSource) :=
  leadingVariables spec ++ (payloadName, .value (payloadText codec spec)) :: trailingVariables h spec

/-- The references that the kubelet resolves: variables of the container before
this one, and those of the services. -/
def visible (env : Environ) (name : Text) : Option Text :=
  match env.lookup name with
  | some value => some value
  | none => h.serviceEnviron.lookup name

def resolveOne (env : Environ) (entry : Text × EnvSource) : Environ :=
  set env entry.1 (match entry.2 with
    | .value v => h.expand (visible h env) v
    | .secret key => h.secret key)

def resolve (env : Environ) (entries : List (Text × EnvSource)) : Environ := entries.foldl (resolveOne h) env

def jobEnvironment : Environ :=
  setAll (setAll h.imageEnviron h.serviceEnviron) (resolve h [] (jobVariables codec h spec))

inductive Carrier where
  | subprocess
  | job

def processEnvironment : Carrier → Environ
  | .subprocess => localEnvironment codec h spec
  | .job => jobEnvironment codec h spec

def carriedText : Carrier → Text
  | .subprocess => payloadText codec spec
  | .job => h.expand (visible h (resolve h [] (leadingVariables spec))) (payloadText codec spec)

def runnerEnvironment (env : Environ) : Runner.Environment where
  executionId := (env.lookup "SOPM_EXECUTION_ID".toList).getD "unknown".toList
  artifactPath := env.lookup "SOPM_ARTIFACT_PATH".toList
  entrypoint := (env.lookup "SOPM_ENTRYPOINT".toList).getD "handler.handler".toList
  payload := (env.lookup payloadName).getD "\x7b\x7d".toList
  sourceCode := env.lookup "SOPM_SOURCE_CODE".toList
  workDir := match (env.lookup "SOPM_CACHE_DIR".toList).filter fun dir => !dir.isEmpty with
    | some dir => dir ++ "/src".toList
    | none => (env.lookup "SOPM_WORK_DIR".toList).getD "/work".toList

def starts (env : Environ) : Bool := stringsFit env && !h.refuses env

def eventOf (carrier : Carrier) (member : Json) : Option Json :=
  match codec.loads (codec.dumps member) with
  | .error _ => none
  | .ok spec =>
    let env := processEnvironment codec h spec carrier
    if starts h env then
      (Runner.calledWith codec (runnerEnvironment env) h.world).bind fun payload =>
        (h.signature.arguments payload h.context).head?
    else none

end

/-! ## What arrives -/

structure LoadsHandler (h : Host) (env : Environ) : Prop where
  prologue : h.world.prologue = none
  setUp : (Runner.setUp (runnerEnvironment env) h.world).failure = none
  handler : h.world.load.ends = .handler
  event : h.signature.takesEvent = true

/-- Nothing but the size of the payload keeps the handler from being called, and the
kubelet finds nothing in the payload to expand. -/
structure Ready (codec : JsonCodec) (h : Host) (carrier : Carrier) (spec payload : Json) : Prop where
  others : ∀ entry ∈ processEnvironment codec h spec carrier, entry.1 ≠ payloadName →
    stringSize entry ≤ maxStringSize
  admitted : h.refuses (processEnvironment codec h spec carrier) = false
  loads : LoadsHandler h (processEnvironment codec h spec carrier)
  literal : carrier = .job → Runner.parsePayload codec (carriedText codec h spec carrier) = .ok payload

structure Deliverable (codec : JsonCodec) (h : Host) (carrier : Carrier) (spec payload : Json) : Prop
    extends Ready codec h carrier spec payload where
  fits : utf8Length (carriedText codec h spec carrier) + 14 ≤ maxStringSize

variable {codec : JsonCodec} {h : Host} {spec payload : Json}

theorem calledWith_iff {env : Runner.Environment} {w : Runner.World} :
    Runner.calledWith codec env w = some payload ↔ w.prologue = none ∧ (Runner.setUp env w).failure = none ∧
      w.load.ends = .handler ∧ Runner.parsePayload codec env.payload = .ok payload := by
  unfold Runner.calledWith
  split
  · rename_i hprologue hfailure hload
    cases hparse : Runner.parsePayload codec env.payload with
    | error traceback => simp [Except.toOption]
    | ok payload' => simp [Except.toOption, hprologue, hfailure, hload]
  · rename_i hnot
    simp only [reduceCtorEq, false_iff, not_and]
    exact fun hprologue hfailure hload => absurd hload (hnot hprologue hfailure)

theorem resolve_append (env : Environ) (entries more : List (Text × EnvSource)) :
    resolve h env (entries ++ more) = resolve h (resolve h env entries) more := by
  simp [resolve]

theorem resolve_cons (env : Environ) (entry : Text × EnvSource) (entries : List (Text × EnvSource)) :
    resolve h env (entry :: entries) = resolve h (resolveOne h env entry) entries := rfl

theorem Only.resolve {env : Environ} {name value : Text} (honly : Only env name value)
    {entries : List (Text × EnvSource)} (hne : name ∉ entries.map Prod.fst) :
    Only (resolve h env entries) name value := by
  induction entries generalizing env with
  | nil => exact honly
  | cons entry entries ih =>
    obtain ⟨hentry, hentries⟩ := List.ne_and_not_mem_of_not_mem_cons hne
    exact ih (honly.set hentry _) hentries

structure Plain (h : Host) (spec : Json) : Prop where
  source : sourceCode spec = none
  user : userVariables h spec = []

def localNames : List Text :=
  ["SOPM_EXECUTION_ID".toList, "SOPM_ARTIFACT_PATH".toList, "SOPM_ENTRYPOINT".toList, payloadName,
    "SOPM_TIMEOUT".toList, "SOPM_WORK_DIR".toList, "SOPM_VERSION_ID".toList, "SOPM_CACHE_DIR".toList,
    "HOME".toList, "PIP_CACHE_DIR".toList, "PYTHONPYCACHEPREFIX".toList]

def trailingNames : List Text :=
  ["SOPM_TIMEOUT".toList, "HOME".toList, "PIP_CACHE_DIR".toList, "PYTHONPYCACHEPREFIX".toList,
    "MINIO_ENDPOINT".toList, "MINIO_ACCESS_KEY".toList, "MINIO_SECRET_KEY".toList]

theorem localNames_nodup : localNames.Nodup := by decide

theorem payloadName_trailing : payloadName ∉ trailingNames := by decide

theorem localVariables_names : (localVariables codec h spec).map Prod.fst = localNames := rfl

theorem localVariables_payload : (payloadName, payloadText codec spec) ∈ localVariables codec h spec :=
  .tail _ (.tail _ (.tail _ (.head _)))

theorem trailingVariables_names (hplain : Plain h spec) :
    (trailingVariables h spec).map Prod.fst = trailingNames := by
  rw [trailingVariables, hplain.source, hplain.user]
  rfl

theorem payload_only_local (hplain : Plain h spec) :
    Only (localEnvironment codec h spec) payloadName (payloadText codec spec) := by
  have hnames : ((localVariables codec h spec).map Prod.fst).Nodup :=
    localVariables_names ▸ localNames_nodup
  have honly := (Only.of_nodup localVariables_payload hnames).setAll_entries h.osEnviron
  simpa only [localEnvironment, hplain.source, hplain.user, setAll_nil] using honly

theorem payload_only_job (hplain : Plain h spec) :
    Only (jobEnvironment codec h spec) payloadName (carriedText codec h spec .job) := by
  have hnames : payloadName ∉ (trailingVariables h spec).map Prod.fst := by
    rw [trailingVariables_names hplain]
    exact payloadName_trailing
  have hset : Only (resolveOne h (resolve h [] (leadingVariables spec))
      (payloadName, .value (payloadText codec spec))) payloadName (carriedText codec h spec .job) := by
    apply only_set
  have hresolved : Only (resolve h [] (jobVariables codec h spec)) payloadName
      (carriedText codec h spec .job) := by
    rw [jobVariables, resolve_append, resolve_cons]
    exact Only.resolve hset hnames
  rw [jobEnvironment]
  exact hresolved.setAll_entries _

theorem payload_only (hplain : Plain h spec) (carrier : Carrier) :
    Only (processEnvironment codec h spec carrier) payloadName (carriedText codec h spec carrier) := by
  cases carrier with
  | subprocess => exact payload_only_local hplain
  | job => exact payload_only_job hplain

/-! ## The spec of a triggered execution -/

theorem runnerEnvironment_payload {env : Environ} {text : Text} (honly : Only env payloadName text) :
    (runnerEnvironment env).payload = text := by
  simp [runnerEnvironment, honly.lookup]

theorem starts_iff {env : Environ} {text : Text} (honly : Only env payloadName text) :
    starts h env = true ↔ utf8Length text + 14 ≤ maxStringSize ∧
      (∀ entry ∈ env, entry.1 ≠ payloadName → stringSize entry ≤ maxStringSize) ∧ h.refuses env = false := by
  have hname : utf8Length payloadName = 12 := by decide
  have hsize : stringSize (payloadName, text) = utf8Length text + 14 := by
    simp only [stringSize, hname]
    omega
  simp [starts, honly.stringsFit_iff, hsize, and_assoc]

theorem called_iff {env : Environ} {text : Text} (honly : Only env payloadName text) :
    ((Runner.calledWith codec (runnerEnvironment env) h.world).bind fun event =>
        (h.signature.arguments event h.context).head?) = some payload ↔
      LoadsHandler h env ∧ Runner.parsePayload codec text = .ok payload := by
  simp only [Option.bind_eq_some_iff, calledWith_iff, Runner.Signature.arguments_head,
    runnerEnvironment_payload honly]
  constructor
  · rintro ⟨event, ⟨hprologue, hsetUp, hhandler, hparse⟩, hevent, rfl⟩
    exact ⟨⟨hprologue, hsetUp, hhandler, hevent⟩, hparse⟩
  · rintro ⟨hloads, hparse⟩
    exact ⟨payload, ⟨hloads.prologue, hloads.setUp, hloads.handler, hparse⟩, hloads.event, rfl⟩

theorem eventOf_iff {carrier : Carrier} (hplain : Plain h spec) (hspec : codec.loads (codec.dumps spec) = .ok spec)
    (hpayload : Runner.parsePayload codec (payloadText codec spec) = .ok payload) :
    eventOf codec h carrier spec = some payload ↔ Deliverable codec h carrier spec payload := by
  have honly : Only (processEnvironment codec h spec carrier) payloadName (carriedText codec h spec carrier) :=
    payload_only hplain carrier
  have hparse : Runner.parsePayload codec (carriedText codec h spec carrier) = .ok payload ↔
      (carrier = .job → Runner.parsePayload codec (carriedText codec h spec carrier) = .ok payload) := by
    cases carrier with
    | subprocess => exact iff_of_true hpayload (fun hjob => by cases hjob)
    | job => exact ⟨fun hsame _ => hsame, fun hjob => hjob rfl⟩
  simp only [eventOf, hspec]
  by_cases hstarts : starts h (processEnvironment codec h spec carrier) = true
  · rw [if_pos hstarts, called_iff honly, hparse]
    obtain ⟨hfits, hothers, hadmitted⟩ := (starts_iff honly).mp hstarts
    exact ⟨fun hcalled => ⟨⟨hothers, hadmitted, hcalled.1, hcalled.2⟩, hfits⟩,
      fun hdeliverable => ⟨hdeliverable.loads, hdeliverable.literal⟩⟩
  · rw [if_neg hstarts]
    refine ⟨(fun hnone => by cases hnone), fun hdeliverable => ?_⟩
    exact absurd ((starts_iff honly).mpr ⟨hdeliverable.fits, hdeliverable.others, hdeliverable.admitted⟩) hstarts

section
variable {uuidText : Uuid → Text} {executionId : Uuid} {fn : Function} {version : FunctionVersion}
  {body : ExecutionTrigger}

theorem triggerMember_payload :
    payloadText codec (triggerMember uuidText executionId fn version body) = codec.dumps body.payload := rfl

theorem triggerMember_plain (henvironment : version.environment = .obj []) :
    Plain h (triggerMember uuidText executionId fn version body) := by
  refine ⟨rfl, ?_⟩
  have hget : (triggerMember uuidText executionId fn version body).get? "environment".toList =
      some version.environment := rfl
  rw [userVariables, hget, henvironment]
  rfl

end

/-! ## Triggered executions -/

section
variable {W Q R : Type} [DecidableEq W] [DecidableEq Q] [DecidableEq R] {c : Config} {s t : State W Q R}

theorem versions_environment (hs : Reachable (Step c) (fun s : State W Q R => s = initial) s) :
    ∀ version ∈ s.versions, version.environment = .obj [] := by
  apply hs.invariant (I := fun s => ∀ version ∈ s.versions, version.environment = .obj [])
  · rintro s rfl version hversion
    cases hversion
  · intro s a t h hstep
    cases hstep with
    | createVersion hform htimeout henvironment =>
      intro version hversion
      rcases List.mem_append.mp hversion with hold | hnew
      · exact h version hold
      · exact List.mem_singleton.mp hnew ▸ henvironment
    | deleteVersions => exact fun version hversion => h version (List.mem_filter.mp hversion).1
    | _ => exact h

/-- An accepted payload reaches the handler exactly if its encoding is within the
length of one string of an environment and nothing else stands in the way. -/
theorem payload_delivered_iff (hs : Reachable (Step c) (fun s : State W Q R => s = initial) s) {q : Q}
    {user : Uuid} {g : Given} {fn : Function} {version : FunctionVersion} {body : ExecutionTrigger}
    (hstep : Step c s (.trigger q user g fn version body) t) (uuidText : Uuid → Text) (h : Host)
    (hmember : c.codec.loads (c.codec.dumps (triggerMember uuidText g.newId fn version body)) =
      .ok (triggerMember uuidText g.newId fn version body))
    (hpayload : c.codec.loads (c.codec.dumps body.payload) = .ok body.payload) (carrier : Carrier) :
    eventOf c.codec h carrier (triggerMember uuidText g.newId fn version body) = some body.payload ↔
      Deliverable c.codec h carrier (triggerMember uuidText g.newId fn version body) body.payload := by
  cases hstep with
  | trigger hbody hversion hstep =>
    apply eventOf_iff (triggerMember_plain (versions_environment hs version hversion)) hmember
    rw [triggerMember_payload, Runner.parsePayload, hpayload]

end

/-! A payload with one text, for a worker that runs the handler itself. -/

def sampleBody (x : Text) : ExecutionTrigger := ⟨.obj [("k".toList, .str x)], none, none⟩

def sampleHead : Text := "\x7b\"k\": \"".toList

def sampleEncoding (x : Text) : Text := sampleHead ++ x ++ "\"\x7d".toList

def sampleUuidText (id : Uuid) : Text := (toString id).toList

def sampleMember (x : Text) : Json :=
  triggerMember sampleUuidText sampleGiven.newId sampleFunction sampleVersion (sampleBody x)

def sampleMemberHead : Text :=
  "\x7b\"job_id\": \"1\", \"execution_id\": \"1\", \"function_id\": \"4\", \"version_id\": \"5\", ".toList

def sampleMemberText (x : Text) : Text :=
  sampleMemberHead ++ "\"artifact_path\": \"\", \"entrypoint\": \"handler.handler\", \"payload\": ".toList ++
    sampleEncoding x ++
    ", \"timeout\": 300, \"environment\": \x7b\x7d, \"memory_mb\": 128, \"execution_type\": \"function\"\x7d".toList

def deliveryCodec (x : Text) : JsonCodec :=
  .ofTable [((sampleBody x).payload, sampleEncoding x), (sampleMember x, sampleMemberText x)]

def sampleHost : Host where
  osEnviron := [("PATH".toList, "/usr/bin".toList)]
  imageEnviron := []
  serviceEnviron := []
  secret _ := []
  str
    | .int n => (toString n).toList
    | _ => []
  defaultTimeout := 300
  expand _ v := v
  refuses _ := false
  world := ⟨none, true, .ok (), .ok (), .ok (), .absent, ⟨[], .handler⟩,
    fun _ => ⟨[], .returned ⟨true, "0.000".toList, 0, ⟨[], .encodes (.obj [])⟩⟩⟩, ⟨[], none⟩⟩
  signature := ⟨false, 2⟩
  context := .obj []

theorem deliveryCodec_payload (x : Text) :
    (deliveryCodec x).loads ((deliveryCodec x).dumps (sampleBody x).payload) = .ok (sampleBody x).payload := by
  rw [deliveryCodec, JsonCodec.ofTable_dumps_head, JsonCodec.ofTable_loads_head]

theorem append_ne_append {p q a b : Text} (n : ℕ) (hp : n ≤ p.length) (hq : n ≤ q.length)
    (h : p.take n ≠ q.take n) : p ++ a ≠ q ++ b := by
  intro heq
  have htake := congrArg (List.take n) heq
  rw [List.take_append_of_le_length hp, List.take_append_of_le_length hq] at htake
  exact h htake

theorem sampleHead_length : 3 ≤ sampleHead.length := by decide

theorem sampleMemberHead_length : 3 ≤ sampleMemberHead.length := by decide

theorem sampleHead_ne : sampleHead.take 3 ≠ sampleMemberHead.take 3 := by decide

theorem deliveryCodec_member (x : Text) :
    (deliveryCodec x).loads ((deliveryCodec x).dumps (sampleMember x)) = .ok (sampleMember x) := by
  have hjson : (sampleBody x).payload ≠ sampleMember x := by
    intro h
    have hlength : 1 = 11 := congrArg List.length (Json.obj.inj h)
    omega
  have htext : sampleEncoding x ≠ sampleMemberText x := by
    rw [sampleEncoding, sampleMemberText]
    simp only [List.append_assoc]
    exact append_ne_append 3 sampleHead_length sampleMemberHead_length sampleHead_ne
  simp [deliveryCodec, JsonCodec.ofTable, hjson, htext]

theorem loadsHandler_sample (env : Environ) : LoadsHandler sampleHost env := by
  refine ⟨rfl, ?_, rfl, rfl⟩
  have hfetch : (Runner.fetchSource (runnerEnvironment env) sampleHost.world).failure = none := by
    rw [Runner.fetchSource]
    cases (runnerEnvironment env).sourceCode with
    | none => rfl
    | some code => rfl
  simp only [Runner.setUp, Runner.Setup.andThen, Runner.Setup.done, hfetch]
  rfl

def sampleLeading : List (Text × Text) :=
  [("SOPM_EXECUTION_ID".toList, sampleUuidText 1), ("SOPM_ARTIFACT_PATH".toList, []),
    ("SOPM_ENTRYPOINT".toList, "handler.handler".toList)]

def sampleTrailing : List (Text × Text) :=
  [("SOPM_TIMEOUT".toList, sampleHost.str (.int 300)),
    ("SOPM_WORK_DIR".toList, "/tmp/sopm-exec-".toList ++ sampleUuidText 1),
    ("SOPM_VERSION_ID".toList, sampleUuidText 5),
    ("SOPM_CACHE_DIR".toList, "/tmp/sopm-cache-".toList ++ sampleUuidText 5), ("HOME".toList, "/tmp".toList),
    ("PIP_CACHE_DIR".toList, "/tmp/pip-cache".toList), ("PYTHONPYCACHEPREFIX".toList, "/tmp/pycache".toList)]

theorem sample_leading : ∀ entry ∈ sampleLeading, stringSize entry ≤ maxStringSize := by decide

theorem sample_trailing : ∀ entry ∈ sampleTrailing, stringSize entry ≤ maxStringSize := by decide

theorem sample_variables (x : Text) : localVariables (deliveryCodec x) sampleHost (sampleMember x) =
    sampleLeading ++ (payloadName, (deliveryCodec x).dumps (sampleBody x).payload) :: sampleTrailing := rfl

theorem ready_sample (x : Text) :
    Ready (deliveryCodec x) sampleHost .subprocess (sampleMember x) (sampleBody x).payload := by
  refine ⟨?_, rfl, loadsHandler_sample _, fun hjob => by cases hjob⟩
  have hplain : Plain sampleHost (sampleMember x) := triggerMember_plain rfl
  intro entry hentry hname
  simp only [processEnvironment, localEnvironment, hplain.source, hplain.user, setAll_nil] at hentry
  rcases mem_setAll hentry with hos | hlocal
  · rw [List.mem_singleton.mp hos]
    decide
  · rw [sample_variables] at hlocal
    rcases List.mem_append.mp hlocal with hleading | htrailing
    · exact sample_leading entry hleading
    · rcases List.mem_cons.mp htrailing with rfl | hrest
      · exact absurd rfl hname
      · exact sample_trailing entry hrest

theorem utf8Length_carriedText (x : Text) :
    utf8Length (carriedText (deliveryCodec x) sampleHost (sampleMember x) .subprocess) = utf8Length x + 9 := by
  have htext : carriedText (deliveryCodec x) sampleHost (sampleMember x) .subprocess = sampleEncoding x :=
    JsonCodec.ofTable_dumps_head _ _ _
  have hhead : utf8Length sampleHead = 7 := by decide
  have htail : utf8Length "\"\x7d".toList = 2 := by decide
  simp only [utf8Length] at hhead htail
  simp only [htext, sampleEncoding, utf8Length, List.map_append, List.sum_append, hhead, htail]
  omega

theorem acceptsTrigger_sample {x : Text} (h : utf8Length x + 9 ≤ payloadLimit) :
    acceptsTrigger (deliveryCodec x) (sampleBody x) = true := by
  have hsize : encodedSize (deliveryCodec x) (sampleBody x).payload = utf8Length x + 9 :=
    utf8Length_carriedText x
  have hvalid : validatePayloadSize (deliveryCodec x) (sampleBody x).payload = .ok (sampleBody x).payload :=
    validateSize_ok.mpr ⟨hsize ▸ h, rfl⟩
  rw [acceptsTrigger, hvalid]
  rfl

def sampleStored : State Unit Unit Unit := { initial with versions := [sampleVersion] }

theorem reachable_sampleStored (codec : JsonCodec) :
    Reachable (Step (sampleConfig codec)) (fun s : State Unit Unit Unit => s = initial) sampleStored :=
  ⟨initial, [.createVersion sampleForm sampleVersion], rfl, .single (.createVersion (by decide) rfl rfl)⟩

theorem trigger_sample {x : Text} (h : utf8Length x + 9 ≤ payloadLimit) :
    ∃ t : State Unit Unit Unit, Step (sampleConfig (deliveryCodec x)) sampleStored
      (.trigger () 7 sampleGiven sampleFunction sampleVersion (sampleBody x)) t :=
  ⟨_, .trigger (acceptsTrigger_sample h) (List.mem_singleton_self _) (.create rfl rfl)⟩

theorem payload_delivered_iff_short :
    eventOf (deliveryCodec ['v']) sampleHost .subprocess (sampleMember ['v']) =
      some (.obj [("k".toList, .str ['v'])]) := by
  generalize hx : ['v'] = x
  have hlength : utf8Length x = 1 := hx ▸ by decide
  have haccepted : utf8Length x + 9 ≤ payloadLimit := hlength.symm ▸ by decide
  have hfits : utf8Length (carriedText (deliveryCodec x) sampleHost (sampleMember x) .subprocess) + 14 ≤
      maxStringSize := by
    rw [utf8Length_carriedText, hlength]
    decide
  obtain ⟨t, hstep⟩ := trigger_sample haccepted
  exact (payload_delivered_iff (reachable_sampleStored _) hstep sampleUuidText sampleHost (deliveryCodec_member x)
    (deliveryCodec_payload x) .subprocess).mpr ⟨ready_sample x, hfits⟩

theorem utf8Length_replicate (n : ℕ) : utf8Length (List.replicate n 'a') = n := by
  have ha : 'a'.utf8Size = 1 := by decide
  simp [utf8Length, ha]

theorem not_deliverable_sample {x : Text} (h : maxStringSize ≤ utf8Length x) :
    ¬ Deliverable (deliveryCodec x) sampleHost .subprocess (sampleMember x) (sampleBody x).payload := by
  intro hdeliverable
  have hfits := hdeliverable.fits
  rw [utf8Length_carriedText] at hfits
  omega

/-- An eighth of the limit of the trigger route is too long for the variable. -/
theorem accepted_payload_too_long : ¬ ∀ (c : Config) (s t : State Unit Unit Unit) (user : Uuid) (g : Given)
    (fn : Function) (version : FunctionVersion) (body : ExecutionTrigger) (uuidText : Uuid → Text) (h : Host)
    (carrier : Carrier), Reachable (Step c) (fun s => s = initial) s →
    Step c s (.trigger () user g fn version body) t →
    c.codec.loads (c.codec.dumps (triggerMember uuidText g.newId fn version body)) =
      .ok (triggerMember uuidText g.newId fn version body) →
    c.codec.loads (c.codec.dumps body.payload) = .ok body.payload →
    Ready c.codec h carrier (triggerMember uuidText g.newId fn version body) body.payload →
    eventOf c.codec h carrier (triggerMember uuidText g.newId fn version body) = some body.payload := by
  intro hclaim
  obtain ⟨x, hx⟩ : ∃ x : Text, utf8Length x = maxStringSize := ⟨_, utf8Length_replicate _⟩
  have hbound : maxStringSize + 9 ≤ payloadLimit := by decide
  obtain ⟨t, hstep⟩ := trigger_sample (hx.symm ▸ hbound)
  have hevent := hclaim _ _ _ _ _ _ _ _ sampleUuidText sampleHost .subprocess (reachable_sampleStored _) hstep
    (deliveryCodec_member x) (deliveryCodec_payload x) (ready_sample x)
  have hparse : Runner.parsePayload (deliveryCodec x) (payloadText (deliveryCodec x) (sampleMember x)) =
      .ok (sampleBody x).payload := by
    rw [sampleMember, triggerMember_payload, Runner.parsePayload, deliveryCodec_payload]
  exact not_deliverable_sample hx.ge
    ((eventOf_iff (triggerMember_plain rfl) (deliveryCodec_member x) hparse).mp hevent)

end PyFaaS.PayloadDelivery
