/-! The names of the run-time helpers that the written requests use, and the lines above them. -/

namespace ApiClient

structure Config where
  fileHeaders : List String := []
  hookFactory : String := "createRequestHook"
  clientRequest : String := "client.request"
  errorType : String := "IResponseError"

end ApiClient
