import KnxIoT.Json.Printer
/-!
# Status

The outcome of a request.  An engine reports it as a number of its own or as a CoAP response code of
class and detail; callers see the number.  Two negative numbers stand for requests that never
reached an engine.
-/

namespace KnxIoT

/-- The outcome of a request. -/
inductive Status where
  | ok
  | created
  | changed
  | deleted
  | notModified
  | badRequest
  | unauthorized
  | badOption
  | forbidden
  | notFound
  | methodNotAllowed
  | notAcceptable
  | requestEntityTooLarge
  | unsupportedMediaType
  | internalServerError
  | notImplemented
  | badGateway
  | serviceUnavailable
  | gatewayTimeout
  | proxyingNotSupported
  /-- The response should be disregarded. -/
  | ignore
  /-- The engine gave up waiting for the peer. -/
  | pingTimeout
  | unknownDevice
  /-- The engine refused the request. -/
  | submissionFailed
  /-- A code without a name. -/
  | other (code : Int32)
  deriving DecidableEq, Repr

namespace Status

/-- The statuses with a name. -/
def named : List Status :=
  [ok, created, changed, deleted, notModified, badRequest, unauthorized, badOption, forbidden,
    notFound, methodNotAllowed, notAcceptable, requestEntityTooLarge, unsupportedMediaType,
    internalServerError, notImplemented, badGateway, serviceUnavailable, gatewayTimeout,
    proxyingNotSupported, ignore, pingTimeout, unknownDevice, submissionFailed]

/-- The number of a status. -/
def code : Status → Int32
  | ok => 0
  | created => 1
  | changed => 2
  | deleted => 3
  | notModified => 4
  | badRequest => 5
  | unauthorized => 6
  | badOption => 7
  | forbidden => 8
  | notFound => 9
  | methodNotAllowed => 10
  | notAcceptable => 11
  | requestEntityTooLarge => 12
  | unsupportedMediaType => 13
  | internalServerError => 14
  | notImplemented => 15
  | badGateway => 16
  | serviceUnavailable => 17
  | gatewayTimeout => 18
  | proxyingNotSupported => 19
  | ignore => 21
  | pingTimeout => 22
  | submissionFailed => -1
  | unknownDevice => -2
  | other code => code

/-- The name of a status. -/
def name : Status → String
  | ok => "STATUS_OK"
  | created => "STATUS_CREATED"
  | changed => "STATUS_CHANGED"
  | deleted => "STATUS_DELETED"
  | notModified => "STATUS_NOT_MODIFIED"
  | badRequest => "STATUS_BAD_REQUEST"
  | unauthorized => "STATUS_UNAUTHORIZED"
  | badOption => "STATUS_BAD_OPTION"
  | forbidden => "STATUS_FORBIDDEN"
  | notFound => "STATUS_NOT_FOUND"
  | methodNotAllowed => "STATUS_METHOD_NOT_ALLOWED"
  | notAcceptable => "STATUS_NOT_ACCEPTABLE"
  | requestEntityTooLarge => "STATUS_REQUEST_ENTITY_TOO_LARGE"
  | unsupportedMediaType => "STATUS_UNSUPPORTED_MEDIA_TYPE"
  | internalServerError => "STATUS_INTERNAL_SERVER_ERROR"
  | notImplemented => "STATUS_NOT_IMPLEMENTED"
  | badGateway => "STATUS_BAD_GATEWAY"
  | serviceUnavailable => "STATUS_SERVICE_UNAVAILABLE"
  | gatewayTimeout => "STATUS_GATEWAY_TIMEOUT"
  | proxyingNotSupported => "STATUS_PROXYING_NOT_SUPPORTED"
  | ignore => "IGNORE"
  | pingTimeout => "PING_TIMEOUT"
  | unknownDevice => "UNKNOWN_DEVICE"
  | submissionFailed => "SUBMISSION_FAILED"
  | other _ => "UNKNOWN_STATUS"

/-- The CoAP class and detail of a status, if it has one. -/
def coap? : Status → Option (UInt8 × UInt8)
  | ok => some (2, 5)
  | created => some (2, 1)
  | changed => some (2, 4)
  | deleted => some (2, 2)
  | notModified => some (2, 3)
  | badRequest => some (4, 0)
  | unauthorized => some (4, 1)
  | badOption => some (4, 2)
  | forbidden => some (4, 3)
  | notFound => some (4, 4)
  | methodNotAllowed => some (4, 5)
  | notAcceptable => some (4, 6)
  | requestEntityTooLarge => some (4, 13)
  | unsupportedMediaType => some (4, 15)
  | internalServerError => some (5, 0)
  | notImplemented => some (5, 1)
  | badGateway => some (5, 2)
  | serviceUnavailable => some (5, 3)
  | gatewayTimeout => some (5, 4)
  | proxyingNotSupported => some (5, 5)
  | _ => none

/-- The status with the given number. -/
def ofCode (code : Int32) : Status :=
  (named.find? (·.code = code)).getD (.other code)

/-- The status for a CoAP response code.  A code without a name becomes the number whose hundreds
are the class. -/
def ofCoap (c d : UInt8) : Status :=
  (named.find? (·.coap? = some (c, d))).getD
    (.other (Int32.ofNat (c.toNat * 100 + d.toNat)))

/-- Whether the status is of class 2. -/
def isSuccess (s : Status) : Bool :=
  s.coap?.any fun (c, _) => c = 2

/-- A number with at least two digits. -/
def twoDigits (n : UInt8) : String :=
  if n < 10 then "0" ++ toString n.toNat else toString n.toNat

/-- The name of a status with its CoAP code or, without one, its number. -/
def describe (s : Status) : String :=
  match s.coap? with
  | some (c, d) => s.name ++ " (" ++ toString c.toNat ++ "." ++ twoDigits d ++ ")"
  | none => s.name ++ " (" ++ String.ofList (Json.intText s.code.toInt) ++ ")"

end Status

end KnxIoT
