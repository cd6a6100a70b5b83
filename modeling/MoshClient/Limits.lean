import Mathlib.Data.Nat.Basic

/-! The resource limits of `limits.rs`. -/

namespace MoshClient.Limits

def maxBootstrapBytes : Nat := 4 * 1024
def maxBootstrapLines : Nat := 64
def encodedKeyBytes : Nat := 22
def decodedKeyBytes : Nat := 16
def maxDatagramBytes : Nat := 2 * 1024
def maxFragmentBodyBytes : Nat := 1400
def maxFragmentsPerInstruction : Nat := 749
def incompleteInstructionLifetimeMs : Nat := 10000
def maxCompressedInstructionBytes : Nat := 1024 * 1024
def maxDecompressedInstructionBytes : Nat := 2 * 1024 * 1024
def maxStateDifferenceBytes : Nat := 2 * 1024 * 1024
def maxInputCommandBytes : Nat := 64 * 1024
def maxClientOperationsAfterAck : Nat := 4096
def sessionCommandQueueCapacity : Nat := 64
def maxTerminalRows : Nat := 200
def maxTerminalColumns : Nat := 500
def maxTerminalVisibleCells : Nat := 100000
def maxTerminalOperationsPerDifference : Nat := 4096
def maxOutputChunkBytes : Nat := 2 * 1024 * 1024
def maxPendingPredictionScalars : Nat := 32
def maxPendingPredictionBytes : Nat := 32
def maxPredictionAgeMs : Nat := 10000
def adaptivePredictionDisableFrameMs : Nat := 20
def adaptivePredictionEnableFrameMs : Nat := 30
def adaptivePredictionGlitchMs : Nat := 250
def maxSentStatesAfterAck : Nat := 32
def maxReceivedReferenceStates : Nat := 32
def minRetransmissionTimeoutMs : Nat := 50
def maxRetransmissionTimeoutMs : Nat := 5000
def initialRetransmissionTimeoutMs : Nat := 1000
def maxRttSampleMs : Nat := 60000
def minFrameIntervalMs : Nat := 20
def maxFrameIntervalMs : Nat := 250
def stateChangeCollectionMs : Nat := 15
def maxAcknowledgementDelayMs : Nat := 100
def heartbeatIntervalMs : Nat := 3000
def noRecentContactMs : Nat := 6500
def noRecentReplyMs : Nat := 10000
def initialAttachmentTimeoutMs : Nat := 15000
def gracefulCloseAckTimeoutMs : Nat := 4000
def maxTimestampReplyAgeMs : Nat := 1000

end MoshClient.Limits
