import FastServer.Basic

namespace FastServer.Request

/-- The parsed request of package http. `method`, `path` and `proto` are views into the
read buffer in the source; here they are their bytes. -/
structure Request where
  method : Bytes
  path : Bytes
  proto : Bytes
  contentType : Bytes
  contentLength : Bytes
  userAgent : Bytes
  accept : Bytes
  host : Bytes
  connection : Bytes
  extraHeaders : GoMap Bytes Bytes
  query : GoMap Bytes Bytes
  body : Bytes
  deriving DecidableEq, Repr

/-- A fresh `Request{}`. -/
def Request.empty : Request := ⟨[], [], [], [], [], [], [], [], [], [], [], []⟩

/-- `Request.SetHeader`: the six known names go to their fields, the others to the extras. -/
def Request.setHeader (r : Request) (key value : Bytes) : Request :=
  if key = lit "Content-Type" then { r with contentType := value }
  else if key = lit "Content-Length" then { r with contentLength := value }
  else if key = lit "User-Agent" then { r with userAgent := value }
  else if key = lit "Accept" then { r with accept := value }
  else if key = lit "Host" then { r with host := value }
  else if key = lit "Connection" then { r with connection := value }
  else { r with extraHeaders := r.extraHeaders.set key value }

/-- `Request.Reset`. -/
def Request.reset (r : Request) : Request :=
  { r with method := [], path := [], proto := [], contentType := [], contentLength := [],
           userAgent := [], accept := [], host := [], connection := [], extraHeaders := [],
           query := [], body := [] }

/-- `FDContext.Header` and `StandardContext.Header`: the known names read their fields. -/
def Request.header (r : Request) (key : Bytes) : Bytes :=
  if key = lit "Content-Type" then r.contentType
  else if key = lit "Content-Length" then r.contentLength
  else if key = lit "User-Agent" then r.userAgent
  else if key = lit "Accept" then r.accept
  else if key = lit "Host" then r.host
  else if key = lit "Connection" then r.connection
  else (r.extraHeaders.get key).getD []

end FastServer.Request
