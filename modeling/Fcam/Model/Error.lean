import Mathlib.Tactic.Common

/-!
# What the gateway raises

`FcamError` is the error every layer answers with. `Raised` adds the Python exceptions the modelled
functions can let through instead.
-/

namespace Fcam

/-- The `code` of an `FcamError`. -/
inductive ErrorCode where
  | adminUnauthorized | allKeysBusy | allKeysCooling | allKeysDisabled | allKeysQuotaExceeded
  | apiKeyDuplicate | clientConcurrencyLimited | clientDisabled | clientNotFound
  | clientQuotaExceeded | clientRateLimited | clientUnauthorized | dbUnavailable | decryptionFailed
  | idempotencyInProgress | idempotencyKeyConflict | idempotencyKeyRequired | internalError
  | invalidApiKey | keyDecryptFailed | keyNotFound | mixedProviderBatch | notFound | notReady
  | noKeyAvailable | noKeyConfigured | pathNotAllowed | providerNotConfigured | rateLimited
  | refreshTooFrequent | requestTooLarge | timeout | unknownError | unsupportedMediaType
  | unsupportedProviderOperation | upstreamError | upstreamTimeout | upstreamUnavailable
  | validationError
deriving DecidableEq, Repr

/-- The `details` of an error; an absent key is `none`. -/
structure ErrorDetails where
  clientId : Option Nat := none
  apiKeyId : Option Nat := none
  baseUrl : Option String := none
  timeoutS : Option Int := none
  attempts : Option Nat := none
  method : Option String := none
  upstreamPath : Option String := none
  error : Option String := none
  lastUpstreamStatusCode : Option (Option Nat) := none
  lastApiKeyId : Option (Option Nat) := none
  maxBodyBytes : Option Int := none
deriving DecidableEq, Repr

structure FcamError where
  statusCode : Nat
  code : ErrorCode
  message : String
  details : Option ErrorDetails := none
  retryAfter : Option Int := none
deriving DecidableEq, Repr

/-- The error of every database or state backend failure. -/
def dbUnavailable (message : String) : FcamError :=
  { statusCode := 503, code := .dbUnavailable, message }

/-- An exception that leaves a modelled function. -/
inductive Raised where
  | fcam (error : FcamError)
  | unicodeEncodeError
  | overflowError
  | other (text : String)
deriving DecidableEq, Repr

end Fcam
