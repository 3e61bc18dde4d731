import AgentBridge.Context.Prepare

/-! # Errors of an agent connection -/

namespace AgentBridge

namespace Acp

inductive AcpError where
  | requestTimedOut
  | closed
  | invalidWorkingDirectory
  | invalidMcpCommand
  | unsupportedMcpTransport
  | emptyPrompt
  | sessionUnavailable
  | invalidPermission
  | eventBufferFull
  | resumeUnsupported
  | continuationScopeRequired
  | incompatibleContinuation
  | unsafeHandoff
  | configurationUnsupported
  | unknownConfigurationOption
  | invalidConfigurationValue
  | configurationUncertain
  | configurationRejected
  | invalidConfiguration
  | configurationChanged
  | store (fault : Fault)
  /-- An error of the protocol library, with its text. -/
  | protocol (message : String)
deriving DecidableEq

inductive RecordingError where
  | nativeStructuredOutputUnsupported
  | context (e : Context.ContextError)
  | unsupportedContext (message : String)
  | store (e : StoreError)
  | agent (e : AcpError)
  | runAlreadyRecorded
  | closed
  | missingPermission
  | serialization (message : String)
deriving DecidableEq

end Acp

end AgentBridge
