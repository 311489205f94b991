import BlocknetGovernance.Basic
import BlocknetGovernance.Stream
import BlocknetGovernance.Script
import BlocknetGovernance.Proposal
import BlocknetGovernance.Vote
import BlocknetGovernance.StdMap
import BlocknetGovernance.Extract
import BlocknetGovernance.Store
import BlocknetGovernance.Reorg
import BlocknetGovernance.Loader
import BlocknetGovernance.Consistency
import BlocknetGovernance.Interleaving
import BlocknetGovernance.Rebuild
import BlocknetGovernance.Submit
import BlocknetGovernance.SubmitVotes
import BlocknetGovernance.SubmitProposal
import BlocknetGovernance.Delivery
import BlocknetGovernance.Tally
