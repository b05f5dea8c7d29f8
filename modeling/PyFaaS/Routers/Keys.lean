import PyFaaS.Api

/-!
# `api/routers/keys.py` and `api/dependencies/api_keys.py`
-/

namespace PyFaaS.Api
open Transactions Database

variable (settings : ApiSettings) (currentUser : Uuid) (g : Given)

def listKeys : Session Response := do
  let rows ← query fun db => db.apiKeys.filter fun k => decide (k.ownerId = currentUser)
  return .apiKeyList ((newestFirst ApiKey.createdAt rows).map ApiKeyResponse.ofRow)

def createKey (name : Text) : Session Response := do
  let key : ApiKey :=
    { id := g.newId
      ownerId := currentUser
      name := name
      keyHash := settings.hashApiKey g.rawKey
      keyPrefix := g.rawKey.take 12
      revokedAt := none
      lastUsedAt := none
      createdAt := g.now }
  write (insertApiKey key)
  return .apiKeyCreated (.ofRow key) g.rawKey

def revokeKey (keyId : Uuid) : Session Response := do
  let row ← query fun db =>
    db.apiKeys.find? fun k => decide (k.id = keyId) && decide (k.ownerId = currentUser)
  let key ← found row (.exception 404 "API key not found".toList)
  write (updateApiKey key.id fun row => { row with revokedAt := some g.now })
  return .noContent

/-- The key that the header names, with its use noted. Its owner is the user. -/
def getApiKeyPrincipal (xSopmKey : Option Text) : Session ApiKey := do
  let value ← found (xSopmKey.filter fun value => !value.isEmpty) (.exception 401 "Missing API key".toList)
  let row ← query fun db => db.apiKeys.find? fun k =>
    decide (k.keyHash = settings.hashApiKey value) && k.revokedAt.isNone
  let key ← found row (.exception 401 "Invalid API key".toList)
  write (updateApiKey key.id fun row => { row with lastUsedAt := some g.now })
  return { key with lastUsedAt := some g.now }

end PyFaaS.Api
