import KnxIoT.Payload
import KnxIoT.Submission
/-!
# Requests

A request to a registered device, as a caller states it.
-/

namespace KnxIoT

/-- A request to a device. -/
structure Request where
  method : Method
  identifier : String
  path : String
  /-- The query, never empty. -/
  query : Option String := none
  payload : Bytes := []
  contentFormat : Option ContentFormat := none
  /-- The format that is wanted for the response. -/
  accept : Option ContentFormat := none
  /-- A mark that comes back with the response. -/
  tag : String := ""
  /-- Takes the place of the device's own protection setting. -/
  secure : Option Bool := none
  deriving DecidableEq, Repr

namespace Request

/-- A request for structured data. -/
def get (identifier path : String) : Request :=
  { method := .get, identifier, path, accept := some .cbor }

/-- A request for a link listing. -/
def getLinks (identifier path : String) : Request :=
  { method := .get, identifier, path, accept := some .linkFormat }

/-- A request with a body in CBOR. -/
def post (identifier path : String) (payload : Bytes) : Request :=
  { method := .post, identifier, path, payload, contentFormat := some .cbor }

/-- A request that stores a body in CBOR. -/
def put (identifier path : String) (payload : Bytes) : Request :=
  { method := .put, identifier, path, payload, contentFormat := some .cbor }

/-- A request that removes a resource. -/
def delete (identifier path : String) : Request :=
  { method := .delete, identifier, path }

/-- The request with a query; an empty one is none. -/
def withQuery (r : Request) (query : String) : Request :=
  { r with query := if query = "" then none else some query }

/-- The request with a mark. -/
def withTag (r : Request) (tag : String) : Request :=
  { r with tag }

/-- The request with a wanted response format. -/
def withAccept (r : Request) (format : ContentFormat) : Request :=
  { r with accept := some format }

/-- The request with a body. -/
def withBody (r : Request) (payload : Bytes) (format : ContentFormat) : Request :=
  { r with payload, contentFormat := some format }

/-- The request with its own protection setting. -/
def withSecure (r : Request) (secure : Bool) : Request :=
  { r with secure := some secure }

end Request

end KnxIoT
